import Libfs.Operations

/-! # Requests that fail

    Nine of the handlers answer anything but `SUCCESS` before they touch a
    table, or after calls that cannot fail any more.  Nothing is assumed of
    the tables: a handler that returns has found its way through them. -/

namespace LibfsSpecs

open LibfsHeap LibfsStdio LibfsCommon LibfsInode LibfsOperations

variable {s s' : State} {env : Env} {name : Filename} {st : Status}

/-! ## Tables -/

/-- A name that is not taken is added. -/
theorem addFilename_of_free {t t' : Table FilenameInode} {nodeIndex : Nat}
    (hfree : checkIfFilenameTaken t name = .ok false)
    (h : addFilenameToTable t name nodeIndex = .ok (st, t')) : st = .success := by
  obtain ⟨p, hp, hnone⟩ := bind_ok_iff.mp hfree
  have hp' : p = none :=
    Option.isNone_iff_eq_none.mp (Option.isSome_eq_false_iff.mp (Except.ok.inj hnone))
  obtain ⟨q, hq, h⟩ := bind_ok_iff.mp h
  rw [hp, hp'] at hq
  cases hq
  obtain ⟨_, -, h⟩ := bind_ok_iff.mp h
  cases h
  rfl

/-- A name is replaced last, so a rename that fails has replaced none. -/
theorem renameFile_refused {t t' : Table FilenameInode} {newname : Filename}
    (h : renameFile t name newname = .ok (st, t')) (hst : st ≠ .success) : t' = t := by
  obtain ⟨taken, -, h⟩ := bind_ok_iff.mp h
  cases taken with
  | true =>
      cases h
      rfl
  | false =>
      obtain ⟨p, -, h⟩ := bind_ok_iff.mp h
      cases p with
      | none =>
          cases h
          rfl
      | some a =>
          obtain ⟨_, -, h⟩ := bind_ok_iff.mp h
          obtain ⟨_, -, h⟩ := bind_ok_iff.mp h
          cases h
          exact absurd rfl hst

/-- A descriptor that was not found is not removed. -/
theorem removeDescriptor_refused {t t' : Table Descriptor} {fd : Nat}
    (h : removeDescriptor t fd = .ok (st, t')) (hst : st ≠ .success) : t' = t := by
  obtain ⟨p, -, h⟩ := bind_ok_iff.mp h
  cases p with
  | none =>
      cases h
      rfl
  | some a =>
      obtain ⟨_, -, h⟩ := bind_ok_iff.mp h
      cases h
      exact absurd rfl hst

/-! ## Files -/

/-- A lookup that fails has not come to the inode. -/
theorem getFileStat_outcome {stat : Option Stat}
    (h : getFileStatFromInode s env name = .ok (st, stat, s')) :
    st = .success ∨ st = .failure ∧ s' = s := by
  obtain ⟨⟨found, nodeIndex⟩, -, h⟩ := bind_ok_iff.mp h
  simp only [if_neg found.code_ne_neg_one] at h
  obtain ⟨p, -, h⟩ := bind_ok_iff.mp h
  cases p with
  | none =>
      cases h
      exact Or.inr ⟨rfl, rfl⟩
  | some a =>
      obtain ⟨_, -, h⟩ := bind_ok_iff.mp h
      obtain ⟨_, -, h⟩ := bind_ok_iff.mp h
      cases h
      exact Or.inl rfl

/-- The access time is set only when the inode was found. -/
theorem getFileStat_refused {stat : Option Stat}
    (h : getFileStatFromInode s env name = .ok (st, stat, s')) (hst : st ≠ .success) : s' = s :=
  ((getFileStat_outcome h).resolve_left hst).2

/-- A mode is set, or nothing happens. -/
theorem chmodInode_outcome {mode : Int} (h : chmodInode s env name mode = .ok (st, s')) :
    st = .success ∨ (st = .failure ∨ st = .fileNotFound) ∧ s' = s := by
  obtain ⟨⟨found, nodeIndex⟩, -, h⟩ := bind_ok_iff.mp h
  by_cases hfound : found = .failure
  · simp only [if_pos hfound] at h
    cases h
    exact Or.inr ⟨Or.inr rfl, rfl⟩
  · simp only [if_neg hfound] at h
    obtain ⟨p, -, h⟩ := bind_ok_iff.mp h
    cases p with
    | none =>
        cases h
        exact Or.inr ⟨Or.inl rfl, rfl⟩
    | some a =>
        obtain ⟨_, -, h⟩ := bind_ok_iff.mp h
        obtain ⟨_, -, h⟩ := bind_ok_iff.mp h
        cases h
        exact Or.inl rfl

/-- A mode that could not be set is left. -/
theorem chmodInode_refused {mode : Int} (h : chmodInode s env name mode = .ok (st, s'))
    (hst : st ≠ .success) : s' = s :=
  ((chmodInode_outcome h).resolve_left hst).2

/-- Whatever becomes of the name, an inode that was found is unlinked. -/
theorem unlinkInode_refused (h : unlinkInode s env name = .ok (st, s')) (hst : st ≠ .success) :
    s' = s := by
  obtain ⟨⟨found, nodeIndex⟩, -, h⟩ := bind_ok_iff.mp h
  by_cases hfound : found ≠ .success
  · simp only [if_pos hfound] at h
    cases h
    rfl
  · simp only [if_neg hfound] at h
    obtain ⟨p, -, h⟩ := bind_ok_iff.mp h
    cases p with
    | none =>
        cases h
        rfl
    | some a =>
        obtain ⟨v, -, h⟩ := bind_ok_iff.mp h
        obtain ⟨_, -, h⟩ := bind_ok_iff.mp h
        by_cases hzero : u32 (v.refCount + 4294967295) = 0
        · rw [if_pos hzero] at h
          obtain ⟨_, -, h⟩ := bind_ok_iff.mp h
          obtain ⟨_, -, h⟩ := bind_ok_iff.mp h
          obtain ⟨_, -, h⟩ := bind_ok_iff.mp h
          cases h
          exact absurd rfl hst
        · rw [if_neg hzero] at h
          obtain ⟨_, -, h⟩ := bind_ok_iff.mp h
          cases h
          exact absurd rfl hst

/-- A second writer and a missing inode are refused before anything is added. -/
theorem openInode_outcome {mode : OpenMode} {fd : Nat}
    (h : openInode s env name mode = .ok (st, fd, s')) :
    st = .success ∨ (st = .failure ∨ st = .doubleWrite) ∧ s' = s := by
  obtain ⟨⟨found, nodeIndex⟩, -, h⟩ := bind_ok_iff.mp h
  simp only [if_neg found.code_ne_neg_one] at h
  obtain ⟨writer, -, h⟩ := bind_ok_iff.mp h
  cases writer with
  | true =>
      cases h
      exact Or.inr ⟨Or.inr rfl, rfl⟩
  | false =>
      obtain ⟨p, -, h⟩ := bind_ok_iff.mp h
      cases p with
      | none =>
          cases h
          exact Or.inr ⟨Or.inl rfl, rfl⟩
      | some a =>
          obtain ⟨_, -, h⟩ := bind_ok_iff.mp h
          obtain ⟨_, -, h⟩ := bind_ok_iff.mp h
          obtain ⟨_, -, h⟩ := bind_ok_iff.mp h
          cases h
          exact Or.inl rfl

/-- A refused `open_inode` adds no descriptor. -/
theorem openInode_refused {mode : OpenMode} {fd : Nat}
    (h : openInode s env name mode = .ok (st, fd, s')) (hst : st ≠ .success) : s' = s :=
  ((openInode_outcome h).resolve_left hst).2

/-- A descriptor that could not be closed stays as it is. -/
theorem closeInode_refused {fd : Nat} (h : closeInode s fd = .ok (st, s')) (hst : st ≠ .success) :
    s' = s := by
  obtain ⟨⟨removed, t⟩, ht, h⟩ := bind_ok_iff.mp h
  cases h
  have hremoved : removed ≠ .success := by
    rintro rfl
    exact hst rfl
  rw [removeDescriptor_refused ht hremoved]

/-- An offset behind the end is not set. -/
theorem seekInodeFd_refused {fd offset : Nat} (h : seekInodeFd s fd offset = .ok (st, s'))
    (hst : st ≠ .success) : s' = s := by
  obtain ⟨p, -, h⟩ := bind_ok_iff.mp h
  cases p with
  | none =>
      cases h
      rfl
  | some d =>
      obtain ⟨_, -, h⟩ := bind_ok_iff.mp h
      obtain ⟨q, -, h⟩ := bind_ok_iff.mp h
      cases q with
      | none =>
          cases h
          rfl
      | some a =>
          obtain ⟨v, -, h⟩ := bind_ok_iff.mp h
          by_cases hlong : (offset : Int) > v.stat.stSize
          · rw [if_pos hlong] at h
            cases h
            rfl
          · rw [if_neg hlong] at h
            obtain ⟨_, -, h⟩ := bind_ok_iff.mp h
            cases h
            exact absurd rfl hst

/-- A taken name and a missing inode are refused before the name is added. -/
theorem createHardLink_outcome {newName : Filename}
    (h : createHardLink s env name newName = .ok (st, s')) :
    st = .success ∨ (st = .failure ∨ st = .filenameTaken) ∧ s' = s := by
  obtain ⟨⟨found, nodeIndex⟩, -, h⟩ := bind_ok_iff.mp h
  simp only [if_neg found.code_ne_neg_one] at h
  obtain ⟨taken, -, h⟩ := bind_ok_iff.mp h
  cases taken with
  | true =>
      cases h
      exact Or.inr ⟨Or.inr rfl, rfl⟩
  | false =>
      obtain ⟨p, -, h⟩ := bind_ok_iff.mp h
      cases p with
      | none =>
          cases h
          exact Or.inr ⟨Or.inl rfl, rfl⟩
      | some a =>
          obtain ⟨_, -, h⟩ := bind_ok_iff.mp h
          obtain ⟨_, -, h⟩ := bind_ok_iff.mp h
          obtain ⟨_, -, h⟩ := bind_ok_iff.mp h
          cases h
          exact Or.inl rfl

/-- A refused hard link counts no reference. -/
theorem createHardLink_refused {newName : Filename}
    (h : createHardLink s env name newName = .ok (st, s')) (hst : st ≠ .success) : s' = s :=
  ((createHardLink_outcome h).resolve_left hst).2

/-! ## Handlers -/

variable {resp : Response}

/-- The two late failures of `service_create` cannot happen: the name was
    found free just before. -/
theorem create_refused {args : CreateArgs} (h : serviceCreate s env args = .ok (s', resp))
    (hst : resp.status ≠ .success) : s' = s := by
  obtain ⟨taken, htaken, h⟩ := bind_ok_iff.mp h
  cases taken with
  | true =>
      cases h
      rfl
  | false =>
      obtain ⟨⟨nodeIndex, inodeTable⟩, -, h⟩ := bind_ok_iff.mp h
      obtain ⟨⟨added, filenameTable⟩, hadd, h⟩ := bind_ok_iff.mp h
      cases h
      rw [addFilename_of_free htaken hadd] at hst
      exact absurd rfl hst

/-- A `RENAME` that fails renames nothing. -/
theorem rename_refused {args : RenameArgs} (h : serviceRename s args = .ok (s', resp))
    (hst : resp.status ≠ .success) : s' = s := by
  obtain ⟨⟨renamed, t⟩, ht, h⟩ := bind_ok_iff.mp h
  cases h
  have hrenamed : renamed ≠ .success := by
    rintro rfl
    exact hst rfl
  rw [renameFile_refused ht hrenamed]

/-- A handler that checks what it has read before it calls its function: only
    the function can change the state. -/
theorem checked_refused {α : Type} {read : C α} {call : C (State × Response)} {payload : Payload}
    (check : α → Status)
    (h : (read >>= fun a => if check a = .success then call else .ok (s, ⟨check a, payload⟩))
      = .ok (s', resp))
    (hcall : call = .ok (s', resp) → s' = s) : s' = s := by
  obtain ⟨a, -, h⟩ := bind_ok_iff.mp h
  by_cases hallowed : check a = .success
  · rw [if_pos hallowed] at h
    exact hcall h
  · rw [if_neg hallowed] at h
    cases h
    rfl

/-- A `CHMODE` that fails sets no mode. -/
theorem chmode_refused {args : ChmodeArgs} (h : serviceChmode s env args = .ok (s', resp))
    (hst : resp.status ≠ .success) : s' = s := by
  refine checked_refused (fun p : Status × OwnerGroupPerms =>
    checkedStatus p.1 (writeDenied args.fileOwner args.fileGroup p.2)) h fun hcall => ?_
  obtain ⟨⟨done, s₁⟩, hdone, h⟩ := bind_ok_iff.mp hcall
  cases h
  exact chmodInode_refused hdone hst

/-- A `STAT` that fails touches nothing. -/
theorem stat_refused {args : StatArgs} (h : serviceStat s env args = .ok (s', resp))
    (hst : resp.status ≠ .success) : s' = s := by
  refine checked_refused (fun p : Status × OwnerGroupPerms =>
    checkedStatus (lookupStatus p.1) (readDenied args.fileOwner args.fileGroup p.2)) h
    fun hcall => ?_
  obtain ⟨⟨done, stat, s₁⟩, hdone, h⟩ := bind_ok_iff.mp hcall
  cases h
  exact getFileStat_refused hdone hst

/-- A `LINK` that fails adds no name. -/
theorem link_refused {args : LinkArgs} (h : serviceLink s env args = .ok (s', resp))
    (hst : resp.status ≠ .success) : s' = s := by
  refine checked_refused (fun p : Status × OwnerGroupPerms =>
    checkedStatus (lookupStatus p.1) (readDenied args.fileOwner args.fileGroup p.2)) h
    fun hcall => ?_
  obtain ⟨⟨done, s₁⟩, hdone, h⟩ := bind_ok_iff.mp hcall
  cases h
  exact createHardLink_refused hdone hst

/-- An `OPEN` that fails, or has flags of another mode, opens nothing. -/
theorem open_refused {args : OpenArgs} (h : serviceOpen s env args = .ok (s', resp))
    (hst : resp.status ≠ .success) : s' = s := by
  obtain ⟨⟨found, file⟩, -, h⟩ := bind_ok_iff.mp h
  cases hmode : OpenMode.ofFlags args.flags with
  | none =>
      simp only [hmode] at h
      cases h
      rfl
  | some mode =>
      simp only [hmode] at h
      by_cases hallowed : openStatus found args file = .success
      · rw [if_pos hallowed] at h
        obtain ⟨⟨done, fd, s₁⟩, hdone, h⟩ := bind_ok_iff.mp h
        cases h
        exact openInode_refused hdone hst
      · rw [if_neg hallowed] at h
        cases h
        rfl

/-- The requests whose handlers check everything before they change
    anything. -/
def ChecksFirst : Request → Prop
  | .create _ | .rename _ | .chmode _ | .stat _ | .link _ | .open _ | .close _ | .seek _
  | .unlink _ => True
  | .read _ | .write _ | .symlink _ => False

/-- A request of one of the nine kinds that is not answered with `SUCCESS`
    leaves the tables and the data file as they were. -/
theorem failed_request_unchanged {r : Request} (hr : ChecksFirst r)
    (h : handle s env r = .ok (s', resp)) (hst : resp.status ≠ .success) : s' = s := by
  cases r with
  | create args => exact create_refused h hst
  | rename args => exact rename_refused h hst
  | chmode args => exact chmode_refused h hst
  | stat args => exact stat_refused h hst
  | link args => exact link_refused h hst
  | «open» args => exact open_refused h hst
  | close args =>
      obtain ⟨⟨done, s₁⟩, hdone, h⟩ := bind_ok_iff.mp h
      cases h
      exact closeInode_refused hdone hst
  | seek args =>
      obtain ⟨⟨done, s₁⟩, hdone, h⟩ := bind_ok_iff.mp h
      cases h
      exact seekInodeFd_refused hdone hst
  | unlink args =>
      obtain ⟨⟨done, s₁⟩, hdone, h⟩ := bind_ok_iff.mp h
      cases h
      exact unlinkInode_refused hdone hst
  | read args => exact hr.elim
  | write args => exact hr.elim
  | symlink args => exact hr.elim

/-- Two files, the first of which is written through the descriptor 0 and
    cannot be read. -/
def beingWritten : List Request :=
  [.create ⟨1, 1, 0o200, nameA⟩, .create ⟨1, 1, 0o600, nameB⟩, .open ⟨1, 1, nameA, 1⟩,
    .write ⟨1, 1, 0, 3, [97, 98, 99]⟩]

/-- A request of each of the nine kinds that is refused there. -/
def refusedThere : List Request :=
  [.create ⟨1, 1, 0o600, nameA⟩, .rename ⟨nameA, nameB⟩, .chmode ⟨2, 2, 0o600, nameB⟩,
    .stat ⟨1, 1, nameA⟩, .link ⟨1, 1, nameB, nameA⟩, .open ⟨1, 1, nameA, 1⟩, .close ⟨1, 1, 7⟩,
    .seek ⟨1, 1, 0, 4⟩, .unlink ⟨1, 1, nameX⟩]

/-- None of them changes anything. -/
theorem failed_requests_unchanged : returns beingWritten = true ∧ ∀ r ∈ refusedThere, ∃ s' resp,
    handle (replay beingWritten) stillEnv r = .ok (s', resp) ∧ resp.status ≠ .success ∧
      s' = replay beingWritten := by
  have hrefused : ∀ r ∈ refusedThere, (handle (replay beingWritten) stillEnv r).toOption.any
      (fun p => decide (p.2.status ≠ .success)) = true := by decide +kernel
  refine ⟨by decide +kernel, fun r hr => ?_⟩
  obtain ⟨⟨s', resp⟩, hh, hst⟩ := (Option.any_eq_true _ _).mp (hrefused r hr)
  have hchecks : ChecksFirst r := by
    simp only [refusedThere, List.mem_cons, List.not_mem_nil, or_false] at hr
    rcases hr with rfl | rfl | rfl | rfl | rfl | rfl | rfl | rfl | rfl <;> trivial
  exact ⟨s', resp, toOption_some hh, of_decide_eq_true hst,
    failed_request_unchanged hchecks (toOption_some hh) (of_decide_eq_true hst)⟩

end LibfsSpecs
