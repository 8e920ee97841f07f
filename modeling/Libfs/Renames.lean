import Libfs.UniqueNames
import Libfs.Paths

/-! # A rename moves one name

    `rename_file` writes the new name over the old one in the entry that the
    lookup of the old name comes to.  That is stated here for any table that
    can be followed to its end, whatever else is on the heap, as long as no two
    entries have the same name. -/

namespace LibfsSpecs

open LibfsHeap LibfsStdio LibfsCommon LibfsInode LibfsOperations LibfsRun

variable {t t' : Table FilenameInode} {xs l r : List (Nat × FilenameInode)} {a : Nat}
  {e : FilenameInode} {oldname newname : Filename}

/-- The table `t'` is `t` with the name `oldname` replaced by `newname`. -/
structure RenamedOne (t t' : Table FilenameInode) (oldname newname : Filename) : Prop where
  moved : ∃ i, ∀ k, getInodeIndexForFilename t oldname k = .ok (.success, i) ∧
    getInodeIndexForFilename t' newname k = .ok (.success, i)
  gone : ∀ k, getInodeIndexForFilename t' oldname k = .ok (.failure, k)
  others : ∀ name, name ≠ oldname → name ≠ newname → ∀ k,
    getInodeIndexForFilename t' name k = getInodeIndexForFilename t name k
  distinct : ∃ ys, t'.Lists ys ∧ (entryNames ys).Nodup
  undone : renameFile t' newname oldname = .ok (.success, t)

/-! ## The cases of a rename -/

theorem renameFile_taken (hl : t.Lists xs) (hn : newname ∈ entryNames xs) :
    renameFile t oldname newname = .ok (.filenameTaken, t) := by
  simp [renameFile, checkTaken_lists hl, entryLookup_isSome, hn]

theorem renameFile_unknown (hl : t.Lists xs) (hn : newname ∉ entryNames xs)
    (ho : oldname ∉ entryNames xs) : renameFile t oldname newname = .ok (.failure, t) := by
  simp [renameFile, checkTaken_lists hl, entryLookup_none hn, hl.find_eq, findName_none ho]

/-- A rename that gets as far is one assignment to the entry of the old name. -/
theorem renameFile_known (hl : t.Lists (l ++ (a, e) :: r)) (hfirst : e.filename ∉ entryNames l)
    (hn : newname ∉ entryNames (l ++ (a, e) :: r)) :
    renameFile t e.filename newname
      = (do let t' ← t.put a { e with filename := newname }; .ok (.success, t')) := by
  obtain ⟨hget, -⟩ := Table.Lists.put_eq hl e
  simp [renameFile, checkTaken_lists hl, entryLookup_none hn, hl.find_eq, findName_here hfirst,
    hget]

/-! ## The table after a rename -/

/-- The entry `e` was given a name that no entry had. -/
theorem renamedOne_of_put (hl : t.Lists (l ++ (a, e) :: r))
    (hl' : t'.Lists (l ++ (a, { e with filename := newname }) :: r))
    (hback : t'.put a e = .ok t) (hd : (entryNames (l ++ (a, e) :: r)).Nodup)
    (hn : newname ∉ entryNames (l ++ (a, e) :: r)) : RenamedOne t t' e.filename newname := by
  have hd' := distinct_renamed hd hn
  have hnew : entryLookup (l ++ (a, { e with filename := newname }) :: r) newname
      = some e.nodeIndex := @entryLookup_here l r a { e with filename := newname } (not_mem_front hd')
  constructor
  case moved =>
    refine ⟨e.nodeIndex, fun k => ⟨?_, ?_⟩⟩
    · rw [getIndex_lists hl, entryLookup_here (not_mem_front hd)]
    · rw [getIndex_lists hl', hnew]
  case gone =>
    intro k
    rw [getIndex_lists hl', entryLookup_none (old_not_mem hd hn)]
  case others =>
    intro name ho hne k
    rw [getIndex_lists hl', getIndex_lists hl, entryLookup_skip ho.symm,
      @entryLookup_skip l r a { e with filename := newname } name hne.symm]
  case distinct => exact ⟨_, hl', hd'⟩
  case undone =>
    have hknown := @renameFile_known t' l r a { e with filename := newname } e.filename hl'
      (not_mem_front hd') (old_not_mem hd hn)
    rw [hknown]
    show (t'.put a e >>= _) = _
    rw [hback]
    rfl

theorem renamed_one (hl : t.Lists (l ++ (a, e) :: r)) (hd : (entryNames (l ++ (a, e) :: r)).Nodup)
    (hn : newname ∉ entryNames (l ++ (a, e) :: r)) :
    ∃ t', renameFile t e.filename newname = .ok (.success, t') ∧
      RenamedOne t t' e.filename newname := by
  obtain ⟨-, t', hput, hl', hback⟩ := Table.Lists.put_eq hl { e with filename := newname }
  refine ⟨t', ?_, renamedOne_of_put hl hl' hback hd hn⟩
  rw [renameFile_known hl (not_mem_front hd) hn, hput]
  rfl

/-- In every state the service reaches, a filename table whose head was not
    unlinked is one a rename works on. -/
theorem lists_of_run {es : List Event} {s : State} (hr : ServiceRun es s)
    (hi : s.filenameTable.Intact) : s.filenameTable.Lists s.filenameTable.live ∧
      (entryNames s.filenameTable.live).Nodup :=
  ⟨(wellLinked_of_run hr).names.lists hi, names_of_run hr⟩

/-- In a table whose names are distinct a rename succeeds exactly when the old
    name is there and the new one is not.  It then moves that one name and can
    be undone; otherwise the table stays as it is. -/
theorem rename_moves_one_name (hl : t.Lists xs) (hd : (entryNames xs).Nodup)
    (oldname newname : Filename) :
    ∃ st t', renameFile t oldname newname = .ok (st, t') ∧
      (st = .success ↔ oldname ∈ entryNames xs ∧ newname ∉ entryNames xs) ∧
      (oldname = newname → st ≠ .success) ∧
      (st = .success → RenamedOne t t' oldname newname) ∧ (st ≠ .success → t' = t) := by
  by_cases hn : newname ∈ entryNames xs
  · refine ⟨.filenameTaken, t, renameFile_taken hl hn, ?_, ?_, ?_, fun _ => rfl⟩
    · exact iff_of_false (by decide) fun h => h.2 hn
    · exact fun _ => by decide
    · exact fun h => absurd h (by decide)
  by_cases ho : oldname ∈ entryNames xs
  · obtain ⟨l, a, e, r, rfl, rfl⟩ := split_of_mem ho
    obtain ⟨t', hren, hone⟩ := renamed_one hl hd hn
    refine ⟨.success, t', hren, iff_of_true rfl ⟨ho, hn⟩, ?_, fun _ => hone, ?_⟩
    · rintro rfl
      exact absurd ho hn
    · exact fun h => absurd rfl h
  · refine ⟨.failure, t, renameFile_unknown hl hn ho, ?_, ?_, ?_, fun _ => rfl⟩
    · exact iff_of_false (by decide) fun h => ho h.1
    · exact fun _ => by decide
    · exact fun h => absurd h (by decide)

theorem rename_moves_twoFiles :
    ∃ st t', renameFile (replay twoFilesRun).filenameTable nameX nameB = .ok (st, t') ∧
      (st = .success ↔ nameX ∈ entryNames (replay twoFilesRun).filenameTable.live ∧
        nameB ∉ entryNames (replay twoFilesRun).filenameTable.live) ∧
      (nameX = nameB → st ≠ .success) ∧
      (st = .success → RenamedOne (replay twoFilesRun).filenameTable t' nameX nameB) ∧
      (st ≠ .success → t' = (replay twoFilesRun).filenameTable) := by
  obtain ⟨es, hr⟩ := run_replay (show returns twoFilesRun = true by decide +kernel)
  have hi : (replay twoFilesRun).filenameTable.Intact := by
    unfold Table.Intact
    decide +kernel
  obtain ⟨hl, hd⟩ := lists_of_run hr hi
  exact rename_moves_one_name hl hd nameX nameB

end LibfsSpecs
