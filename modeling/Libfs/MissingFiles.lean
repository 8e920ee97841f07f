import Libfs.PermissionBits
import Libfs.FailedSymlinks

/-! # Requests on names that are not there

    `get_file_owner_group_permissions` does not notice that a name is missing
    and looks for the inode with the index zero instead.  What a request on a
    missing name is answered hangs on that inode: whether there is one, and
    whether it lets the caller pass. -/

namespace LibfsSpecs

open LibfsHeap LibfsStdio LibfsCommon LibfsInode LibfsOperations LibfsRun

/-- The name of the file a request is about, where there has to be one. -/
def fileOf : Request → Option Filename
  | .unlink args => some args.name
  | r => (access r).map Access.name

/-- The caller gets past the check although the name is missing: both lists can
    be walked, and the inode with the index zero lets it pass. -/
def PassesAtZero (s : State) (w : Access) : Prop :=
  s.filenameTable.Intact ∧ s.inodeTable.Intact ∧
    ∃ l r a v, FoundInode s.inodeTable 0 l r a v ∧ w.denied (Inode.attributes v) = false

/-- The requests on a missing name that say so. -/
def SaysMissing (s : State) : Request → Prop
  | .unlink _ => s.filenameTable.Intact
  | .chmode args => PassesAtZero s ⟨.writeOnly, args.fileOwner, args.fileGroup, args.filename⟩
  | .symlink args => PassesAtZero s ⟨.readOnly, args.fileOwner, args.fileGroup, args.filename⟩
  | _ => False

/-! ## Looking for a missing name -/

/-- The zeros of a caller whose lookup failed deny everything. -/
theorem Access.denied_zeros (w : Access) : w.denied ⟨0, 0, 0⟩ = true := by
  unfold Access.denied
  cases w.mode with
  | readOnly =>
      show readDenied w.user w.group ⟨0, 0, 0⟩ = true
      unfold readDenied
      by_cases hu : w.user = 0
      · rw [if_pos hu]
        decide
      · rw [if_neg hu]
        by_cases hg : w.group = 0
        · rw [if_pos hg]
          decide
        · rw [if_neg hg]
          decide
  | writeOnly =>
      show writeDenied w.user w.group ⟨0, 0, 0⟩ = true
      unfold writeDenied
      by_cases hu : w.user = 0
      · rw [if_pos hu]
        decide
      · rw [if_neg hu]
        by_cases hg : w.group = 0
        · rw [if_pos hg]
          decide
        · rw [if_neg hg]
          decide

section Lookups

variable {s : State} {env : Env} {name : Filename}

theorem getIndex_missing (hw : WellLinked s) (hn : s.filenameTable.Intact)
    (hmiss : lookup s.filenameTable name = none) :
    getInodeIndexForFilename s.filenameTable name 0 = .ok (.failure, 0) := by
  rw [getIndex_eq hw.names hn, hmiss]

/-- A permission lookup that returned has found the inode with the index zero
    or answers `FAILURE`. -/
theorem permissions_missing (hw : WellLinked s) (hmiss : lookup s.filenameTable name = none)
    {found : Status} {file : OwnerGroupPerms}
    (h : getFileOwnerGroupPermissions s name = .ok (found, file)) :
    s.filenameTable.Intact ∧ s.inodeTable.Intact ∧
      ((found = .success ∧ ∃ l r a v, FoundInode s.inodeTable 0 l r a v ∧
          file = Inode.attributes v) ∨
        (found = .failure ∧ file = ⟨0, 0, 0⟩)) := by
  have hzero := nodeOf_missing hmiss
  have hcases := getPermissions_ok hw h
  rw [hzero] at hcases
  obtain ⟨⟨st, n⟩, hg, h⟩ := bind_ok_iff.mp h
  simp only [if_neg st.code_ne_neg_one] at h
  obtain ⟨q, hq, -⟩ := bind_ok_iff.mp h
  refine ⟨intact_of_getIndex hw.names hg, hw.inodes.intact_of_find hq, ?_⟩
  rcases hcases with hfound | ⟨hfound, hfile, -⟩
  · exact Or.inl hfound
  · exact Or.inr ⟨hfound, hfile⟩

theorem permissions_at_zero (hw : WellLinked s) (hn : s.filenameTable.Intact)
    (hi : s.inodeTable.Intact) (hmiss : lookup s.filenameTable name = none)
    {l r : List (Nat × Inode)} {a : Nat} {v : Inode} (hv : FoundInode s.inodeTable 0 l r a v) :
    getFileOwnerGroupPermissions s name = .ok (.success, Inode.attributes v) := by
  unfold getFileOwnerGroupPermissions
  rw [getIndex_missing hw hn hmiss, ok_bind]
  simp only [if_neg (Status.code_ne_neg_one _)]
  rw [hw.inodes.find_of_found hi hv, ok_bind]
  show (s.inodeTable.get a >>= _) = _
  rw [hv.get]
  rfl

theorem chmodInode_missing (hw : WellLinked s) (hn : s.filenameTable.Intact)
    (hmiss : lookup s.filenameTable name = none) (mode : Int) :
    chmodInode s env name mode = .ok (.fileNotFound, s) := by
  unfold chmodInode
  rw [getIndex_missing hw hn hmiss]
  rfl

theorem unlinkInode_missing (hw : WellLinked s) (hn : s.filenameTable.Intact)
    (hmiss : lookup s.filenameTable name = none) :
    unlinkInode s env name = .ok (.fileNotFound, s) := by
  unfold unlinkInode
  rw [getIndex_missing hw hn hmiss]
  rfl

/-! ## The handlers that notice -/

/-- The check of a missing name passes only at the inode with the index zero. -/
theorem passesAtZero_of_check (hw : WellLinked s) {w : Access}
    (hmiss : lookup s.filenameTable w.name = none) {found : Status} {file : OwnerGroupPerms}
    (hp : getFileOwnerGroupPermissions s w.name = .ok (found, file))
    (hpass : w.denied file = false) : PassesAtZero s w := by
  obtain ⟨hn, hi, ⟨-, l, r, a, v, hv, rfl⟩ | ⟨-, rfl⟩⟩ := permissions_missing hw hmiss hp
  · exact ⟨hn, hi, l, r, a, v, hv, hpass⟩
  · rw [w.denied_zeros] at hpass
    exact nomatch hpass

/-- A status that is not the refusal comes from behind the check. -/
theorem passed_of_status {found st : Status} {denied : Bool} (h : checkedStatus found denied = st)
    (hst : st ≠ .insufficientPerms) : denied = false := by
  cases denied with
  | true => exact absurd h.symm hst
  | false => rfl

theorem chmode_missing (hw : WellLinked s) {args : ChmodeArgs}
    (hmiss : lookup s.filenameTable args.filename = none) :
    Answers s env (.chmode args) .fileNotFound ↔
      PassesAtZero s ⟨.writeOnly, args.fileOwner, args.fileGroup, args.filename⟩ := by
  constructor
  · rintro ⟨s', resp, h, hst⟩
    obtain ⟨⟨found, file⟩, hp, h⟩ := bind_ok_iff.mp h
    refine passesAtZero_of_check hw hmiss hp ?_
    by_cases hpass : checkedStatus found (writeDenied args.fileOwner args.fileGroup file) = .success
    · exact (checkedStatus_success hpass).2
    · simp only [if_neg hpass] at h
      cases h
      exact passed_of_status hst (by decide)
  · rintro ⟨hn, hi, l, r, a, v, hv, hpass⟩
    refine ⟨s, ⟨.fileNotFound, .nothing⟩, ?_, rfl⟩
    show serviceChmode s env args = _
    unfold serviceChmode
    rw [permissions_at_zero hw hn hi hmiss hv, ok_bind]
    change writeDenied args.fileOwner args.fileGroup (Inode.attributes v) = false at hpass
    simp only [hpass]
    show (chmodInode s env args.filename args.accessMode >>= _) = _
    rw [chmodInode_missing hw hn hmiss]
    rfl

theorem symlink_missing (hw : WellLinked s) {args : SymlinkArgs}
    (hmiss : lookup s.filenameTable args.filename = none) :
    Answers s env (.symlink args) .fileNotFound ↔
      PassesAtZero s ⟨.readOnly, args.fileOwner, args.fileGroup, args.filename⟩ := by
  constructor
  · rintro ⟨s', resp, h, hst⟩
    obtain ⟨⟨found, file⟩, hp, h⟩ := bind_ok_iff.mp h
    refine passesAtZero_of_check hw hmiss hp ?_
    by_cases hpass : checkedStatus (lookupStatus found)
        (readDenied args.fileOwner args.fileGroup file) = .success
    · exact (checkedStatus_success hpass).2
    · simp only [if_neg hpass] at h
      cases h
      exact passed_of_status hst (by decide)
  · rintro ⟨hn, hi, l, r, a, v, hv, hpass⟩
    refine ⟨s, ⟨.fileNotFound, .nothing⟩, ?_, rfl⟩
    show serviceSymlink s env args = _
    unfold serviceSymlink
    rw [permissions_at_zero hw hn hi hmiss hv, ok_bind]
    change readDenied args.fileOwner args.fileGroup (Inode.attributes v) = false at hpass
    simp only [hpass]
    show (createSoftLink s env args.filename args.linkname args.fileOwner args.fileGroup args.mode
      >>= _) = _
    rw [createSoftLink_refused hw hn (Or.inl hmiss), if_pos hmiss]
    rfl

theorem unlink_missing (hw : WellLinked s) {args : UnlinkArgs}
    (hmiss : lookup s.filenameTable args.name = none) :
    Answers s env (.unlink args) .fileNotFound ↔ s.filenameTable.Intact := by
  constructor
  · rintro ⟨s', resp, h, -⟩
    obtain ⟨_, h, -⟩ := bind_ok_iff.mp h
    obtain ⟨_, hg, -⟩ := bind_ok_iff.mp h
    exact intact_of_getIndex hw.names hg
  · intro hn
    refine ⟨s, ⟨.fileNotFound, .nothing⟩, ?_, rfl⟩
    show serviceUnlink s env args = _
    unfold serviceUnlink
    rw [unlinkInode_missing hw hn hmiss]
    rfl

/-! ## The handlers that do not -/

/-- A failed lookup is not told from any other failure. -/
theorem checked_lookup_ne (found : Status) (denied : Bool) :
    checkedStatus (lookupStatus found) denied ≠ .fileNotFound := by
  unfold checkedStatus lookupStatus
  cases denied with
  | true => exact fun h => nomatch h
  | false =>
      by_cases h : found = .success
      · rw [if_pos h]
        decide
      · rw [if_neg h]
        decide

theorem stat_never_missing {args : StatArgs} : ¬ Answers s env (.stat args) .fileNotFound := by
  rintro ⟨s', resp, h, hst⟩
  obtain ⟨⟨found, file⟩, -, h⟩ := bind_ok_iff.mp h
  by_cases hpass : checkedStatus (lookupStatus found)
      (readDenied args.fileOwner args.fileGroup file) = .success
  · simp only [if_pos hpass] at h
    obtain ⟨⟨done, stat, s₁⟩, hdone, h⟩ := bind_ok_iff.mp h
    cases h
    obtain rfl := hst
    rcases getFileStat_outcome hdone with he | ⟨he, -⟩
    · exact nomatch he
    · exact nomatch he
  · simp only [if_neg hpass] at h
    cases h
    exact checked_lookup_ne _ _ hst

theorem link_never_missing {args : LinkArgs} : ¬ Answers s env (.link args) .fileNotFound := by
  rintro ⟨s', resp, h, hst⟩
  obtain ⟨⟨found, file⟩, -, h⟩ := bind_ok_iff.mp h
  by_cases hpass : checkedStatus (lookupStatus found)
      (readDenied args.fileOwner args.fileGroup file) = .success
  · simp only [if_pos hpass] at h
    obtain ⟨⟨done, s₁⟩, hdone, h⟩ := bind_ok_iff.mp h
    cases h
    obtain rfl := hst
    rcases createHardLink_outcome hdone with he | ⟨he | he, -⟩
    · exact nomatch he
    · exact nomatch he
    · exact nomatch he
  · simp only [if_neg hpass] at h
    cases h
    exact checked_lookup_ne _ _ hst

theorem open_never_missing {args : OpenArgs} : ¬ Answers s env (.open args) .fileNotFound := by
  rintro ⟨s', resp, h, hst⟩
  obtain ⟨⟨found, file⟩, -, h⟩ := bind_ok_iff.mp h
  have hcheck : openStatus found args file ≠ .fileNotFound := by
    unfold openStatus
    cases OpenMode.ofFlags args.flags with
    | none => exact fun h => nomatch h
    | some mode =>
        cases mode with
        | readOnly => exact checked_lookup_ne found _
        | writeOnly => exact checked_lookup_ne found _
  cases hmode : OpenMode.ofFlags args.flags with
  | none =>
      simp only [hmode] at h
      cases h
      exact hcheck hst
  | some mode =>
      simp only [hmode] at h
      by_cases hpass : openStatus found args file = .success
      · rw [if_pos hpass] at h
        obtain ⟨⟨done, fd, s₁⟩, hdone, h⟩ := bind_ok_iff.mp h
        cases h
        obtain rfl := hst
        rcases openInode_outcome hdone with he | ⟨he | he, -⟩
        · exact nomatch he
        · exact nomatch he
        · exact nomatch he
      · rw [if_neg hpass] at h
        cases h
        exact hcheck hst

end Lookups

/-! ## The answer to a request on a missing name -/

/-- In every reachable state a request on a name that is not in the table is
    answered with `FILE_NOT_FOUND` exactly if it is one of those. -/
theorem missing_file_reported_iff {es : List Event} {s : State} (hr : ServiceRun es s) (env : Env)
    {r : Request} {name : Filename} (hname : fileOf r = some name)
    (hmiss : lookup s.filenameTable name = none) :
    Answers s env r .fileNotFound ↔ SaysMissing s r := by
  have hw := wellLinked_of_run hr
  cases r with
  | create args | rename args | read args | write args | seek args | close args =>
      exact nomatch hname
  | unlink args =>
      cases hname
      exact unlink_missing hw hmiss
  | chmode args =>
      cases hname
      exact chmode_missing hw hmiss
  | symlink args =>
      cases hname
      exact symlink_missing hw hmiss
  | stat args => exact iff_of_false stat_never_missing not_false
  | link args => exact iff_of_false link_never_missing not_false
  | «open» args => exact iff_of_false open_never_missing not_false

/-- A missing name where there is a file that everyone may read. -/
theorem missing_file_symlink :
    Answers (replay [.create ⟨1, 1, 0o777, nameX⟩]) stillEnv
      (.symlink ⟨1, 1, 0o777, nameA, nameB⟩) .fileNotFound ↔
      SaysMissing (replay [.create ⟨1, 1, 0o777, nameX⟩]) (.symlink ⟨1, 1, 0o777, nameA, nameB⟩) := by
  obtain ⟨es, hr⟩ := run_replay (show returns [.create ⟨1, 1, 0o777, nameX⟩] = true by decide +kernel)
  have hmiss : lookup (replay [.create ⟨1, 1, 0o777, nameX⟩]).filenameTable nameA = none := by
    decide +kernel
  exact missing_file_reported_iff hr stillEnv (show fileOf _ = some nameA from rfl) hmiss

/-- Where there is no file at all, `STAT` answers `INSUFFICIENT_PERMS`. -/
theorem missing_file_not_reported : ¬ ∀ (es : List Event) (s : State) (env : Env) (r : Request)
    (name : Filename), ServiceRun es s → fileOf r = some name →
    lookup s.filenameTable name = none → Answers s env r .fileNotFound := by
  intro hclaim
  exact stat_never_missing
    (hclaim [] State.init stillEnv (.stat ⟨0, 0, nameX⟩) nameX .start rfl rfl)

end LibfsSpecs
