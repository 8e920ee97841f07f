import Libfs.FailedRequests
import Libfs.Descriptors

/-! # The permission checks and the mode bits

    Five handlers check a caller against the mode of the file it names, by
    comparisons and remainders.  `service_create` stores any `long` as a mode:
    the remainders drop what is above the class they look at, the comparisons
    of the owner's class do not, and a negative mode has remainders that are
    not positive. -/

namespace LibfsSpecs

open LibfsHeap LibfsStdio LibfsCommon LibfsInode LibfsOperations LibfsRun

/-! ## Who asks for what -/

/-- A caller and the access to a file it is checked for. -/
structure Access where
  mode : OpenMode
  user : Nat
  group : Nat
  name : Filename

/-- The check a request goes through before its operation. -/
def access : Request → Option Access
  | .chmode args => some ⟨.writeOnly, args.fileOwner, args.fileGroup, args.filename⟩
  | .stat args => some ⟨.readOnly, args.fileOwner, args.fileGroup, args.filename⟩
  | .link args => some ⟨.readOnly, args.fileOwner, args.fileGroup, args.filename⟩
  | .symlink args => some ⟨.readOnly, args.fileOwner, args.fileGroup, args.filename⟩
  | .open args => (OpenMode.ofFlags args.flags).map fun mode =>
      ⟨mode, args.fileOwner, args.fileGroup, args.filename⟩
  | _ => none

/-- What the code computes from the attributes it found. -/
def Access.denied (w : Access) (file : OwnerGroupPerms) : Bool :=
  match w.mode with
  | .readOnly => readDenied w.user w.group file
  | .writeOnly => writeDenied w.user w.group file

/-- The mode bits grant the access. -/
def Access.Granted (w : Access) (file : OwnerGroupPerms) : Prop :=
  Grants w.mode file w.user w.group

instance (w : Access) (file : OwnerGroupPerms) : Decidable (w.Granted file) :=
  inferInstanceAs (Decidable (Grants w.mode file w.user w.group))

/-- The request is handled to its end and answered with the status. -/
def Answers (s : State) (env : Env) (r : Request) (st : Status) : Prop :=
  ∃ s' resp, handle s env r = .ok (s', resp) ∧ resp.status = st

/-- An inode's owner, group and mode, as the handlers get to see them. -/
def Inode.attributes (v : Inode) : OwnerGroupPerms := ⟨v.owner, v.ownerGroup, v.mode⟩

/-- The file exists: the lookups of the handlers find its name and, at the
    index the name stands for, its inode. -/
def ExistsAs (s : State) (name : Filename) (v : Inode) : Prop :=
  ∃ n a, getInodeIndexForFilename s.filenameTable name 0 = .ok (.success, n) ∧
    s.inodeTable.find (fun i => i.index = n) = .ok (some a) ∧ s.inodeTable.get a = .ok v

theorem ExistsAs.permissions {s : State} {name : Filename} {v : Inode} (h : ExistsAs s name v) :
    getFileOwnerGroupPermissions s name = .ok (.success, Inode.attributes v) := by
  obtain ⟨n, a, hn, ha, hv⟩ := h
  unfold getFileOwnerGroupPermissions
  rw [hn, ok_bind]
  simp only [if_neg (Status.code_ne_neg_one _)]
  rw [ha, ok_bind]
  show (s.inodeTable.get a >>= _) = _
  rw [hv, ok_bind]
  rfl

/-! ## Statuses of the operations behind the checks -/

variable {s s' : State} {env : Env} {name newName : Filename} {st : Status}

theorem copyContents_status {parent child : Nat}
    (h : copyContents s parent child = .ok (st, s')) : st = .success ∨ st = .failure := by
  obtain ⟨v, -, h⟩ := bind_ok_iff.mp h
  by_cases hneg : v.stat.stSize < 0
  · simp only [if_pos hneg] at h
    exact nomatch h
  simp only [if_neg hneg] at h
  obtain ⟨⟨got, offset, buf⟩, -, h⟩ := bind_ok_iff.mp h
  by_cases hgot : got ≠ .success
  · simp only [if_pos hgot] at h
    cases h
    exact Or.inr rfl
  simp only [if_neg hgot] at h
  obtain ⟨_, -, h⟩ := bind_ok_iff.mp h
  obtain ⟨⟨done, _⟩, -, h⟩ := bind_ok_iff.mp h
  obtain ⟨_, -, h⟩ := bind_ok_iff.mp h
  cases h
  by_cases hdone : done = .success
  · exact Or.inl (if_pos hdone)
  · exact Or.inr (if_neg hdone)

theorem createSoftLink_status {owner ownerGroup : Nat} {mode : Int}
    (h : createSoftLink s env name newName owner ownerGroup mode = .ok (st, s')) :
    st ≠ .insufficientPerms := by
  obtain ⟨⟨found, parentIndex⟩, -, h⟩ := bind_ok_iff.mp h
  by_cases hfound : found ≠ .success
  · simp only [if_pos hfound] at h
    cases h
    decide
  simp only [if_neg hfound] at h
  obtain ⟨taken, -, h⟩ := bind_ok_iff.mp h
  cases taken with
  | true =>
      cases h
      decide
  | false =>
      obtain ⟨⟨childIndex, inodeTable⟩, -, h⟩ := bind_ok_iff.mp h
      obtain ⟨⟨added, filenameTable⟩, -, h⟩ := bind_ok_iff.mp h
      by_cases hadded : added ≠ .success
      · simp only [if_pos hadded] at h
        cases h
        decide
      simp only [if_neg hadded] at h
      obtain ⟨⟨parent, child, linked⟩, -, h⟩ := bind_ok_iff.mp h
      cases parent with
      | none =>
          cases h
          decide
      | some a =>
          cases child with
          | none =>
              cases h
              decide
          | some b =>
              rcases copyContents_status h with rfl | rfl
              · decide
              · decide

/-! ## Which requests are refused -/

theorem checkedStatus_refused {found : Status} {denied : Bool} (hfound : found ≠ .insufficientPerms) :
    checkedStatus found denied = .insufficientPerms ↔ denied = true := by
  unfold checkedStatus
  cases denied with
  | true => exact ⟨fun _ => rfl, fun _ => rfl⟩
  | false => exact ⟨fun h => absurd h hfound, fun h => nomatch h⟩

theorem lookupStatus_ne (found : Status) : lookupStatus found ≠ .insufficientPerms := by
  unfold lookupStatus
  by_cases h : found = .success
  · rw [if_pos h]
    decide
  · rw [if_neg h]
    decide

/-- A handler that checks and then goes on to an operation `x` which never
    complains about permissions. -/
theorem refused_iff {r : Request} {x : C (State × Response)} {found : Status} {denied : Bool}
    {p : Payload} (hfound : found ≠ .insufficientPerms)
    (hr : handle s env r = if checkedStatus found denied = .success then x
      else .ok (s, ⟨checkedStatus found denied, p⟩))
    (hx : ∀ s' resp, x = .ok (s', resp) → resp.status ≠ .insufficientPerms) :
    Answers s env r .insufficientPerms ↔ denied = true := by
  rw [← checkedStatus_refused hfound]
  constructor
  · rintro ⟨s', resp, h, hst⟩
    rw [hr] at h
    by_cases hpass : checkedStatus found denied = .success
    · rw [if_pos hpass] at h
      exact absurd hst (hx s' resp h)
    · rw [if_neg hpass] at h
      cases h
      exact hst
  · intro hst
    refine ⟨s, ⟨checkedStatus found denied, p⟩, ?_, hst⟩
    have hstop : checkedStatus found denied ≠ .success := by
      rw [hst]
      decide
    rw [hr, if_neg hstop]

/-- A caller is refused exactly when the check of its handler says so. -/
theorem refused_iff_denied {r : Request} {w : Access} (hw : access r = some w) {found : Status}
    {file : OwnerGroupPerms} (hf : getFileOwnerGroupPermissions s w.name = .ok (found, file))
    (hfound : found ≠ .insufficientPerms) :
    Answers s env r .insufficientPerms ↔ w.denied file = true := by
  cases r with
  | create args | rename args | unlink args | read args | write args | seek args | close args =>
      exact nomatch hw
  | chmode args =>
      cases hw
      change getFileOwnerGroupPermissions s args.filename = _ at hf
      refine refused_iff hfound (by
        show serviceChmode s env args = _
        unfold serviceChmode
        rw [hf]
        rfl) ?_
      intro s' resp h
      obtain ⟨⟨done, s₁⟩, hdone, h⟩ := bind_ok_iff.mp h
      cases h
      rcases chmodInode_outcome hdone with rfl | ⟨rfl | rfl, -⟩
      · decide
      · decide
      · decide
  | stat args =>
      cases hw
      change getFileOwnerGroupPermissions s args.filename = _ at hf
      refine refused_iff (lookupStatus_ne found) (by
        show serviceStat s env args = _
        unfold serviceStat
        rw [hf]
        rfl) ?_
      intro s' resp h
      obtain ⟨⟨done, stat, s₁⟩, hdone, h⟩ := bind_ok_iff.mp h
      cases h
      rcases getFileStat_outcome hdone with rfl | ⟨rfl, -⟩
      · exact fun h => nomatch h
      · exact fun h => nomatch h
  | link args =>
      cases hw
      change getFileOwnerGroupPermissions s args.filename = _ at hf
      refine refused_iff (lookupStatus_ne found) (by
        show serviceLink s env args = _
        unfold serviceLink
        rw [hf]
        rfl) ?_
      intro s' resp h
      obtain ⟨⟨done, s₁⟩, hdone, h⟩ := bind_ok_iff.mp h
      cases h
      rcases createHardLink_outcome hdone with rfl | ⟨rfl | rfl, -⟩
      · decide
      · decide
      · decide
  | symlink args =>
      cases hw
      change getFileOwnerGroupPermissions s args.filename = _ at hf
      refine refused_iff (lookupStatus_ne found) (by
        show serviceSymlink s env args = _
        unfold serviceSymlink
        rw [hf]
        rfl) ?_
      intro s' resp h
      obtain ⟨⟨done, s₁⟩, hdone, h⟩ := bind_ok_iff.mp h
      cases h
      exact createSoftLink_status hdone
  | «open» args =>
      cases hmode : OpenMode.ofFlags args.flags with
      | none =>
          change (OpenMode.ofFlags args.flags).map _ = _ at hw
          rw [hmode] at hw
          exact nomatch hw
      | some mode =>
          change (OpenMode.ofFlags args.flags).map _ = _ at hw
          rw [hmode] at hw
          cases hw
          change getFileOwnerGroupPermissions s args.filename = _ at hf
          have hst : openStatus found args file = checkedStatus (lookupStatus found)
              (Access.denied ⟨mode, args.fileOwner, args.fileGroup, args.filename⟩ file) := by
            unfold openStatus
            rw [hmode]
            cases mode with
            | readOnly => rfl
            | writeOnly => rfl
          refine refused_iff (lookupStatus_ne found) (by
            show serviceOpen s env args = _
            unfold serviceOpen
            rw [hf, ok_bind]
            simp only [hmode, hst]
            rfl) ?_
          intro s' resp h
          obtain ⟨⟨done, fd, s₁⟩, hdone, h⟩ := bind_ok_iff.mp h
          cases h
          rcases openInode_outcome hdone with rfl | ⟨rfl | rfl, -⟩
          · exact fun h => nomatch h
          · exact fun h => nomatch h
          · exact fun h => nomatch h

/-! ## What the comparisons say about the bits -/

theorem tmod_nonpos {a b : Int} (ha : a < 0) : a.tmod b ≤ 0 := by
  have h := Int.tmod_nonneg b (Int.neg_nonneg_of_nonpos (Int.le_of_lt ha))
  rw [Int.neg_tmod] at h
  exact Int.nonpos_of_neg_nonneg h

/-- Nobody passes a check against a negative mode. -/
theorem Access.denied_of_neg {w : Access} {file : OwnerGroupPerms} (h : file.perms < 0) :
    w.denied file = true := by
  have h64 : file.perms.tmod 0o100 ≤ 0 := tmod_nonpos h
  have h8 : file.perms.tmod 0o10 ≤ 0 := tmod_nonpos h
  unfold Access.denied
  cases w.mode with
  | readOnly =>
      show readDenied w.user w.group file = true
      unfold readDenied
      by_cases hu : w.user = file.owner
      · rw [if_pos hu]
        exact decide_eq_true (by omega)
      · rw [if_neg hu]
        by_cases hg : w.group = file.group
        · rw [if_pos hg]
          exact decide_eq_true (by omega)
        · rw [if_neg hg]
          exact decide_eq_true (by omega)
  | writeOnly =>
      show writeDenied w.user w.group file = true
      unfold writeDenied
      by_cases hu : w.user = file.owner
      · rw [if_pos hu, decide_eq_true (show file.perms < 0o200 by omega), Bool.true_or]
      · rw [if_neg hu]
        by_cases hg : w.group = file.group
        · rw [if_pos hg, decide_eq_true (show file.perms.tmod 0o100 < 0o20 by omega), Bool.true_or]
        · rw [if_neg hg, decide_eq_true (show file.perms.tmod 0o10 < 0o2 by omega), Bool.true_or]

/-- The owner passes every check against a mode with a bit above the nine. -/
theorem Access.passes_of_large {w : Access} {file : OwnerGroupPerms} (hu : w.user = file.owner)
    (h : 0o1000 ≤ file.perms) : w.denied file = false := by
  unfold Access.denied
  cases w.mode with
  | readOnly =>
      show readDenied w.user w.group file = false
      unfold readDenied
      rw [if_pos hu]
      exact decide_eq_false (by omega)
  | writeOnly =>
      show writeDenied w.user w.group file = false
      unfold writeDenied
      rw [if_pos hu, decide_eq_false (show ¬ file.perms < 0o200 by omega),
        decide_eq_false (show ¬ file.perms < 0o600 by omega), Bool.and_false]
      rfl

/-- The remainders drop what is above the class, and the comparisons of the
    owner's class are right on nine bits. -/
theorem Access.denied_iff {w : Access} {file : OwnerGroupPerms} (h0 : 0 ≤ file.perms)
    (hsmall : w.user = file.owner → file.perms < 0o1000) :
    w.denied file = false ↔ w.Granted file := by
  unfold Access.denied Access.Granted
  cases w.mode with
  | readOnly =>
      show readDenied w.user w.group file = false ↔ classBits file w.user w.group / 4 % 2 = 1
      unfold readDenied classBits
      by_cases hu : w.user = file.owner
      · have := hsmall hu
        rw [if_pos hu, if_pos hu, decide_eq_false_iff_not]
        omega
      · rw [if_neg hu, if_neg hu]
        by_cases hg : w.group = file.group
        · rw [if_pos hg, if_pos hg, decide_eq_false_iff_not, Int.tmod_eq_emod_of_nonneg h0]
          omega
        · rw [if_neg hg, if_neg hg, decide_eq_false_iff_not, Int.tmod_eq_emod_of_nonneg h0]
          omega
  | writeOnly =>
      show writeDenied w.user w.group file = false ↔ classBits file w.user w.group / 2 % 2 = 1
      unfold writeDenied classBits
      by_cases hu : w.user = file.owner
      · have := hsmall hu
        rw [if_pos hu, if_pos hu]
        simp only [Bool.or_eq_false_iff, Bool.and_eq_false_iff, decide_eq_false_iff_not]
        omega
      · rw [if_neg hu, if_neg hu]
        by_cases hg : w.group = file.group
        · rw [if_pos hg, if_pos hg, Int.tmod_eq_emod_of_nonneg h0]
          simp only [Bool.or_eq_false_iff, Bool.and_eq_false_iff, decide_eq_false_iff_not]
          omega
        · rw [if_neg hg, if_neg hg, Int.tmod_eq_emod_of_nonneg h0]
          simp only [Bool.or_eq_false_iff, Bool.and_eq_false_iff, decide_eq_false_iff_not]
          omega

/-- The modes the check of an access reads rightly: a mode without sign, of
    nine bits where the caller is the owner, or with the bit the caller gets
    anyway; and a negative one that lacks the bit. -/
def ModeFits (w : Access) (file : OwnerGroupPerms) : Prop :=
  if file.perms < 0 then ¬ w.Granted file
  else w.user = file.owner → file.perms < 0o1000 ∨ w.Granted file

/-- On an existing file, the check of a request passes exactly the callers
    whose class has the bit if and only if the mode is one of those. -/
theorem check_is_the_bit_iff {s : State} {env : Env} {r : Request} {w : Access} {v : Inode}
    (hw : access r = some w) (hv : ExistsAs s w.name v) :
    (¬ Answers s env r .insufficientPerms ↔ w.Granted (Inode.attributes v)) ↔
      ModeFits w (Inode.attributes v) := by
  rw [refused_iff_denied hw hv.permissions (by decide), Bool.not_eq_true]
  unfold ModeFits
  generalize Inode.attributes v = file
  by_cases hneg : file.perms < 0
  · rw [if_pos hneg, Access.denied_of_neg hneg]
    constructor
    · intro h hg
      exact nomatch h.mpr hg
    · intro h
      exact ⟨fun hd => absurd hd (by decide), fun hg => absurd hg h⟩
  · rw [if_neg hneg]
    have h0 : 0 ≤ file.perms := by omega
    by_cases hsmall : w.user = file.owner → file.perms < 0o1000
    · exact ⟨fun _ hu => Or.inl (hsmall hu), fun _ => Access.denied_iff h0 hsmall⟩
    · -- the owner of a file whose mode has a tenth bit
      obtain ⟨hu, hlarge⟩ := Classical.not_imp.mp hsmall
      rw [Access.passes_of_large hu (by omega)]
      constructor
      · intro h _
        exact Or.inr (h.mp rfl)
      · intro h
        exact ⟨fun _ => (h hu).resolve_left hlarge, fun _ => rfl⟩

/-- A file of user 1 with the mode `0600`. -/
def plainFile : Inode := ⟨0, 0, ⟨0, ⟨0, 0⟩, ⟨0, 0⟩, ⟨0, 0⟩⟩, 0o600, 1, 1, 1, Vector.replicate _ 0⟩

theorem existsAs_plain : ExistsAs (replay [.create ⟨1, 1, 0o600, nameX⟩]) nameX plainFile :=
  ⟨0, 0, by decide +kernel, by decide +kernel, by decide +kernel⟩

theorem check_is_the_bit_plain :
    (¬ Answers (replay [.create ⟨1, 1, 0o600, nameX⟩]) stillEnv (.stat ⟨1, 1, nameX⟩)
        .insufficientPerms ↔ Access.Granted ⟨.readOnly, 1, 1, nameX⟩ (Inode.attributes plainFile)) ↔
      ModeFits ⟨.readOnly, 1, 1, nameX⟩ (Inode.attributes plainFile) :=
  check_is_the_bit_iff rfl existsAs_plain

/-- A file with the mode `01000`: no class has any bit, and the owner may do
    what it likes. -/
theorem check_is_not_the_bit : ¬ ∀ (s : State) (env : Env) (r : Request) (w : Access) (v : Inode),
    access r = some w → ExistsAs s w.name v →
    (¬ Answers s env r .insufficientPerms ↔ w.Granted (Inode.attributes v)) := by
  intro hclaim
  have hv : ExistsAs (replay [.create ⟨1, 1, 0o1000, nameX⟩]) nameX
      { plainFile with mode := 0o1000 } :=
    ⟨0, 0, by decide +kernel, by decide +kernel, by decide +kernel⟩
  have hgrant := (hclaim _ stillEnv (.stat ⟨1, 1, nameX⟩) _ _ rfl hv).mp fun h =>
    nomatch (refused_iff_denied rfl hv.permissions (by decide)).mp h
  exact absurd hgrant (by decide)

end LibfsSpecs
