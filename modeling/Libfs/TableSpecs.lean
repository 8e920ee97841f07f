import Libfs.Operations
import Libfs.LinkedTable

/-! # What the functions on one table do

    One rule for each function of `inode.c` that works on a single linked
    table, read from a call that returned. -/

namespace LibfsSpecs

open LibfsHeap LibfsStdio LibfsCommon LibfsInode LibfsOperations

/-! ## Lists of entries -/

section Entries

variable {xs l r : List (Nat × FilenameInode)} {a : Nat} {e : FilenameInode}
  {name newname : Filename}

/-- The names of a list of entries, first one first. -/
def entryNames (xs : List (Nat × FilenameInode)) : List Filename := xs.map fun p => p.2.filename

/-- The index the first entry with the name carries. -/
def entryLookup (xs : List (Nat × FilenameInode)) (name : Filename) : Option Nat :=
  (xs.find? fun p => decide (p.2.filename = name)).map fun p => p.2.nodeIndex

/-- A name stands in one entry or in the others. -/
theorem mem_entryNames_split :
    name ∈ entryNames (l ++ (a, e) :: r) ↔ name = e.filename ∨ name ∈ entryNames (l ++ r) := by
  simp only [entryNames, List.map_append, List.map_cons, List.mem_append, List.mem_cons]
  exact or_left_comm

/-- The names are distinct if one is not among the others and these are
    distinct. -/
theorem entryNames_distinct : (entryNames (l ++ (a, e) :: r)).Nodup ↔
    e.filename ∉ entryNames (l ++ r) ∧ (entryNames (l ++ r)).Nodup := by
  simp only [entryNames, List.map_append, List.map_cons]
  exact List.nodup_middle.trans List.nodup_cons

/-- A name of the list belongs to an entry. -/
theorem split_of_mem (h : name ∈ entryNames xs) :
    ∃ l a e r, xs = l ++ (a, e) :: r ∧ e.filename = name := by
  obtain ⟨p, hp, hname⟩ := List.mem_map.mp h
  obtain ⟨l, r, hs⟩ := List.append_of_mem hp
  exact ⟨l, p.1, p.2, r, hs, hname⟩

/-- A name that no entry has is not found. -/
theorem findName_none (h : name ∉ entryNames xs) :
    xs.find? (fun p => decide (p.2.filename = name)) = none := by
  rw [List.find?_eq_none]
  intro p hp hname
  exact h (List.mem_map.mpr ⟨p, hp, of_decide_eq_true hname⟩)

/-- A search passes over the entries in front, which have other names. -/
theorem findName_here (hfirst : e.filename ∉ entryNames l) :
    (l ++ (a, e) :: r).find? (fun p => decide (p.2.filename = e.filename)) = some (a, e) := by
  rw [List.find?_append, findName_none hfirst, Option.none_or]
  exact List.find?_cons_of_pos (decide_eq_true rfl)

/-- Then there is no index for it either. -/
theorem entryLookup_none (h : name ∉ entryNames xs) : entryLookup xs name = none := by
  simp [entryLookup, findName_none h]

/-- The first entry with a name gives its index. -/
theorem entryLookup_here (hfirst : e.filename ∉ entryNames l) :
    entryLookup (l ++ (a, e) :: r) e.filename = some e.nodeIndex := by
  simp [entryLookup, findName_here hfirst]

/-- A name has an index if an entry has the name. -/
theorem entryLookup_isSome : (entryLookup xs name).isSome = decide (name ∈ entryNames xs) := by
  rw [Bool.eq_iff_iff, entryLookup, Option.isSome_map, List.find?_isSome, decide_eq_true_eq,
    entryNames, List.mem_map]
  constructor
  · rintro ⟨p, hp, hname⟩
    exact ⟨p, hp, of_decide_eq_true hname⟩
  · rintro ⟨p, hp, hname⟩
    exact ⟨p, hp, decide_eq_true hname⟩

/-- An entry with another name makes no difference. -/
theorem entryLookup_skip (hne : e.filename ≠ name) :
    entryLookup (l ++ (a, e) :: r) name = entryLookup (l ++ r) name := by
  simp [entryLookup, List.find?_append, hne]

/-- The entry that has a name is the first one with it. -/
theorem not_mem_front (hd : (entryNames (l ++ (a, e) :: r)).Nodup) :
    e.filename ∉ entryNames l := by
  intro hin
  refine (entryNames_distinct.mp hd).1 ?_
  rw [entryNames, List.map_append]
  exact List.mem_append_left _ hin

/-- A new name in the place of another one. -/
theorem distinct_renamed (hd : (entryNames (l ++ (a, e) :: r)).Nodup)
    (hn : newname ∉ entryNames (l ++ (a, e) :: r)) :
    (entryNames (l ++ (a, { e with filename := newname }) :: r)).Nodup :=
  entryNames_distinct.mpr ⟨fun hin => hn (mem_entryNames_split.mpr (Or.inr hin)),
    (entryNames_distinct.mp hd).2⟩

/-- The old name is gone. -/
theorem old_not_mem (hd : (entryNames (l ++ (a, e) :: r)).Nodup)
    (hn : newname ∉ entryNames (l ++ (a, e) :: r)) :
    e.filename ∉ entryNames (l ++ (a, { e with filename := newname }) :: r) := by
  intro hin
  rcases mem_entryNames_split.mp hin with heq | hin
  · exact hn (mem_entryNames_split.mpr (Or.inl heq.symm))
  · exact (entryNames_distinct.mp hd).1 hin

variable {t : Table FilenameInode}

/-- `get_inode_index_for_filename` on the entries the table lists. -/
theorem getIndex_lists (hl : t.Lists xs) (name : Filename) (k : Nat) :
    getInodeIndexForFilename t name k = .ok (match entryLookup xs name with
      | some i => (.success, i)
      | none => (.failure, k)) := by
  simp only [getInodeIndexForFilename, entryLookup, hl.find_eq, ok_bind]
  cases hfind : xs.find? fun p => decide (p.2.filename = name) with
  | none => rfl
  | some p =>
      obtain ⟨-, l, r, rfl, -⟩ := List.find?_eq_some_iff_append.mp hfind
      obtain ⟨hget, -⟩ := Table.Lists.put_eq hl p.2
      show (t.get p.1 >>= _) = _
      rw [hget]
      rfl

/-- `check_if_filename_taken` on the entries the table lists. -/
theorem checkTaken_lists (hl : t.Lists xs) (name : Filename) :
    checkIfFilenameTaken t name = .ok (entryLookup xs name).isSome := by
  rw [checkIfFilenameTaken, hl.find_eq, ok_bind, entryLookup, Option.isSome_map, Option.isSome_map]

end Entries

/-! ## Names -/

/-- The index a name stands for, read off the list of entries. -/
def lookup (t : Table FilenameInode) (name : Filename) : Option Nat :=
  (t.live.find? fun p => decide (p.2.filename = name)).map fun p => p.2.nodeIndex

/-- The index a by-name request works on: a lookup that misses leaves the
    caller's zero. -/
def nodeOf (t : Table FilenameInode) (name : Filename) : Nat := (lookup t name).getD 0

/-- A name is free if no entry has it. -/
theorem lookup_eq_none {t : Table FilenameInode} {name : Filename} :
    lookup t name = none ↔ ∀ p ∈ t.live, p.2.filename ≠ name := by
  unfold lookup
  rw [Option.map_eq_none_iff, List.find?_eq_none]
  simp

/-- The entry that was found has the index. -/
theorem lookup_of_found {t : Table FilenameInode} {name : Filename}
    {l r : List (Nat × FilenameInode)} {a : Nat} {e : FilenameInode}
    (hf : t.Found (fun e => e.filename = name) l r a e) :
    lookup t name = some e.nodeIndex := by
  unfold lookup
  rw [hf.find?_eq]
  rfl

/-- The index of a name that exists. -/
theorem nodeOf_of_lookup {t : Table FilenameInode} {name : Filename} {n : Nat}
    (h : lookup t name = some n) : nodeOf t name = n := by
  unfold nodeOf
  rw [h]
  rfl

/-- A name that is missing stands for the index zero. -/
theorem nodeOf_missing {t : Table FilenameInode} {name : Filename} (h : lookup t name = none) :
    nodeOf t name = 0 := by
  unfold nodeOf
  rw [h]
  rfl

/-- The index a search has come to. -/
theorem nodeOf_found {t : Table FilenameInode} {name : Filename}
    {l r : List (Nat × FilenameInode)} {a : Nat} {e : FilenameInode}
    (hf : t.Found (fun e => e.filename = name) l r a e) : nodeOf t name = e.nodeIndex :=
  nodeOf_of_lookup (lookup_of_found hf)

/-- `get_inode_index_for_filename` returns the index, or fails and leaves the
    caller's variable. -/
theorem getIndex_eq {t : Table FilenameInode} (hw : t.WF) (hi : t.Intact) (name : Filename)
    (n : Nat) : getInodeIndexForFilename t name n = .ok (match lookup t name with
      | some k => (.success, k)
      | none => (.failure, n)) :=
  getIndex_lists (hw.lists hi) name n

/-- A lookup that returned was made in an intact table. -/
theorem intact_of_getIndex {t : Table FilenameInode} (hw : t.WF) {name : Filename} {n : Nat}
    {p : Status × Nat} (h : getInodeIndexForFilename t name n = .ok p) : t.Intact := by
  obtain ⟨q, hq, -⟩ := bind_ok_iff.mp h
  exact hw.intact_of_find hq

/-- The two outcomes of a call that returned. -/
theorem getIndex_ok {t : Table FilenameInode} (hw : t.WF) {name : Filename} {n k : Nat}
    {st : Status} (h : getInodeIndexForFilename t name n = .ok (st, k)) :
    (st = .success ∧ lookup t name = some k) ∨
      (st = .failure ∧ lookup t name = none ∧ k = n) := by
  rw [getIndex_eq hw (intact_of_getIndex hw h)] at h
  cases hl : lookup t name with
  | none =>
      rw [hl] at h
      cases h
      exact Or.inr ⟨rfl, rfl, rfl⟩
  | some i =>
      rw [hl] at h
      cases h
      exact Or.inl ⟨rfl, rfl⟩

/-- The index a caller that started from zero goes on with. -/
theorem getIndex_nodeOf {t : Table FilenameInode} (hw : t.WF) {name : Filename} {k : Nat}
    {st : Status} (h : getInodeIndexForFilename t name 0 = .ok (st, k)) : k = nodeOf t name := by
  rcases getIndex_ok hw h with ⟨-, hl⟩ | ⟨-, hl, rfl⟩
  · exact (nodeOf_of_lookup hl).symm
  · exact (nodeOf_missing hl).symm

/-- A lookup that did not miss. -/
theorem known_of_getIndex {t : Table FilenameInode} (hw : t.WF) {name : Filename} {n k : Nat}
    {st : Status} (h : getInodeIndexForFilename t name n = .ok (st, k)) (hst : ¬ st ≠ .success) :
    lookup t name ≠ none := by
  rcases getIndex_ok hw h with ⟨-, hl⟩ | ⟨hf, -⟩
  · rw [hl]
    exact Option.some_ne_none k
  · exact absurd (hf.trans_ne (by decide)) hst

/-- `check_if_filename_taken` says whether the name exists. -/
theorem checkTaken_ok {t : Table FilenameInode} (hw : t.WF) {name : Filename} {b : Bool}
    (h : checkIfFilenameTaken t name = .ok b) : b = (lookup t name).isSome := by
  obtain ⟨q, hq, -⟩ := bind_ok_iff.mp h
  rw [checkTaken_lists (hw.lists (hw.intact_of_find hq))] at h
  cases h
  rfl

/-- `add_filename_to_table` adds a free name, and refuses another. -/
theorem addFilename_ok {t t' : Table FilenameInode} (hw : t.WF) {name : Filename} {n : Nat}
    {st : Status} (h : addFilenameToTable t name n = .ok (st, t')) :
    (st = .success ∧ lookup t name = none ∧ ∃ a, t.Pushed t' a ⟨n, name⟩) ∨
      (st = .filenameTaken ∧ t' = t ∧ (lookup t name).isSome) := by
  unfold addFilenameToTable at h
  obtain ⟨q, hq, h⟩ := bind_ok_iff.mp h
  cases q with
  | none =>
      obtain ⟨⟨a, t₁⟩, hp, h⟩ := bind_ok_iff.mp h
      cases h
      refine Or.inl ⟨rfl, ?_, a, hw.pushBack_ok hp⟩
      exact lookup_eq_none.mpr fun p hp => by simpa using hw.find_none hq p hp
  | some a =>
      obtain ⟨l, e, r, hf⟩ := hw.find_some hq
      cases h
      exact Or.inr ⟨rfl, rfl, by rw [lookup_of_found hf]; rfl⟩

/-- `remove_filename_from_table` takes the entry out, and leaves the head
    pointer alone. -/
theorem removeFilename_ok {t t' : Table FilenameInode} (hw : t.WF) {name : Filename}
    {st : Status} (h : removeFilenameFromTable t name = .ok (st, t')) :
    (st = .success ∧ ∃ l e r a, t.Found (fun e => e.filename = name) l r a e ∧
        t.Detached t' l r a e) ∨
      (st = .failure ∧ t' = t ∧ lookup t name = none) := by
  unfold removeFilenameFromTable at h
  obtain ⟨q, hq, h⟩ := bind_ok_iff.mp h
  cases q with
  | none =>
      cases h
      refine Or.inr ⟨rfl, rfl, lookup_eq_none.mpr fun p hp => ?_⟩
      simpa using hw.find_none hq p hp
  | some a =>
      obtain ⟨l, e, r, hf⟩ := hw.find_some hq
      obtain ⟨t₁, hd, hdet⟩ := hw.detach_split hf.split
      change (t.detach a >>= _) = _ at h
      rw [hd] at h
      cases h
      exact Or.inl ⟨rfl, l, e, r, a, hf, hdet⟩

/-- `rename_file` writes a free name into the entry of the old one. -/
theorem renameFile_ok {t t' : Table FilenameInode} (hw : t.WF) {oldname newname : Filename}
    {st : Status} (h : renameFile t oldname newname = .ok (st, t')) :
    (st = .success ∧ lookup t newname = none ∧
        ∃ l e r a, t.Found (fun e => e.filename = oldname) l r a e ∧
          t.Updated t' l r a e { e with filename := newname }) ∨
      (st ≠ .success ∧ t' = t ∧ (lookup t newname ≠ none ∨ lookup t oldname = none)) := by
  unfold renameFile at h
  obtain ⟨taken, ht, h⟩ := bind_ok_iff.mp h
  have hlook := checkTaken_ok hw ht
  cases taken with
  | true =>
      cases h
      refine Or.inr ⟨by decide, rfl, Or.inl ?_⟩
      intro hn
      rw [hn] at hlook
      exact Bool.noConfusion hlook
  | false =>
      have hnone : lookup t newname = none := by
        cases hl : lookup t newname with
        | none => rfl
        | some k => rw [hl] at hlook; exact Bool.noConfusion hlook
      rw [if_neg (by decide)] at h
      obtain ⟨q, hq, h⟩ := bind_ok_iff.mp h
      cases q with
      | none =>
          cases h
          refine Or.inr ⟨by decide, rfl, Or.inr (lookup_eq_none.mpr fun p hp => ?_)⟩
          simpa using hw.find_none hq p hp
      | some a =>
          obtain ⟨l, e, r, hf⟩ := hw.find_some hq
          obtain ⟨t₁, hp, hup⟩ := hw.put_split hf.split { e with filename := newname }
          change (t.get a >>= _) = _ at h
          rw [hf.get, ok_bind, hp] at h
          cases h
          exact Or.inl ⟨rfl, hnone, l, e, r, a, hf, hup⟩

/-! ## Inodes -/

/-- The index `addInode` gives the next inode. -/
def nextIndex (t : Table Inode) : Nat :=
  match t.live.getLast? with
  | none => 0
  | some p => u32 (p.2.index + 1)

/-- `add_inode` hangs an inode without blocks behind the others. -/
theorem addInode_ok {t t' : Table Inode} (hw : t.WF) {type : Nat}
    {owner ownerGroup refCount n : Nat} {mode stSize : Int} {x y z : Timespec}
    (h : addInode t type owner ownerGroup refCount mode stSize x y z = .ok (n, t')) :
    n = nextIndex t ∧ ∃ a, t.Pushed t' a ⟨nextIndex t, type, ⟨stSize, x, y, z⟩, mode, owner,
      ownerGroup, refCount, Vector.replicate fileMaxBlocks 0⟩ := by
  unfold addInode at h
  obtain ⟨⟨a, t₁⟩, hp, h⟩ := bind_ok_iff.mp h
  have hpush : t.Pushed t₁ a ⟨nextIndex t, type, ⟨stSize, x, y, z⟩, mode, owner, ownerGroup,
      refCount, Vector.replicate fileMaxBlocks 0⟩ := by
    have hraw := hw.pushBack_ok hp
    unfold nextIndex
    cases hlast : t.live.getLast? with
    | none => rw [hlast] at hraw; exact hraw
    | some p => rw [hlast] at hraw; exact hraw
  change (t₁.get a >>= _) = _ at h
  rw [Table.get_ok.mpr hpush.mem_new] at h
  cases h
  exact ⟨rfl, a, hpush⟩

/-! ## Descriptors -/

/-- The number `addOpenedDescriptor` gives the next descriptor. -/
def nextDesc (t : Table Descriptor) : Nat :=
  match t.live.getLast? with
  | none => 0
  | some p => u32 (p.2.desc + 1)

/-- `add_opened_descriptor` hangs a descriptor behind the others. -/
theorem addOpenedDescriptor_ok {t t' : Table Descriptor} (hw : t.WF) {nodeIndex offset fd : Nat}
    {mode : OpenMode} (h : addOpenedDescriptor t nodeIndex mode offset = .ok (fd, t')) :
    fd = nextDesc t ∧ ∃ a, t.Pushed t' a ⟨nextDesc t, mode, offset, nodeIndex⟩ := by
  unfold addOpenedDescriptor at h
  obtain ⟨⟨a, t₁⟩, hp, h⟩ := bind_ok_iff.mp h
  have hpush : t.Pushed t₁ a ⟨nextDesc t, mode, offset, nodeIndex⟩ := by
    have hraw := hw.pushBack_ok hp
    unfold nextDesc
    cases hlast : t.live.getLast? with
    | none => rw [hlast] at hraw; exact hraw
    | some p => rw [hlast] at hraw; exact hraw
  change (t₁.get a >>= _) = _ at h
  rw [Table.get_ok.mpr hpush.mem_new] at h
  cases h
  exact ⟨rfl, a, hpush⟩

/-- `look_for_opened_write` came to the end: nobody writes the file. -/
theorem lookForOpenedWrite_ok {t : Table Descriptor} (hw : t.WF) {n : Nat}
    (h : lookForOpenedWrite t n = .ok false) :
    ∀ p ∈ t.live, p.2.nodeIndex = n → p.2.mode ≠ .writeOnly := by
  unfold lookForOpenedWrite at h
  obtain ⟨q, hq, h⟩ := bind_ok_iff.mp h
  cases q with
  | some a => cases h
  | none =>
      intro p hp hn hm
      have := hw.find_none hq p hp
      simp [hn, hm] at this

/-- `remove_descriptor` takes the descriptor out, and the head pointer follows.
    -/
theorem removeDescriptor_ok {t t' : Table Descriptor} (hw : t.WF) (hi : t.Intact) {fd : Nat}
    {st : Status} (h : removeDescriptor t fd = .ok (st, t')) :
    (st = .success ∧ ∃ l d r a, t.Found (fun d => d.desc = fd) l r a d ∧
        t.Removed t' l r a d) ∨
      (st = .failure ∧ t' = t ∧ ∀ p ∈ t.live, p.2.desc ≠ fd) := by
  unfold removeDescriptor at h
  obtain ⟨q, hq, h⟩ := bind_ok_iff.mp h
  cases q with
  | none =>
      cases h
      exact Or.inr ⟨rfl, rfl, fun p hp => by simpa using hw.find_none hq p hp⟩
  | some a =>
      obtain ⟨l, d, r, hf⟩ := hw.find_some hq
      obtain ⟨t₁, hd, hrem⟩ := hw.remove_split hi hf.split
      change (t.remove a >>= _) = _ at h
      rw [hd] at h
      cases h
      exact Or.inl ⟨rfl, l, d, r, a, hf, hrem⟩

end LibfsSpecs
