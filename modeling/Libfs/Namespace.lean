import Libfs.FileIdentity

/-! # Names and inodes

    Every entry of the filename table names a live inode and every inode
    counts its entries.  Both removals of `unlink_inode` get the head of their
    list by value, so unlinking the first entry of a table leaves its head
    pointer dangling; and the two numbers that wrap around, an inode's index
    and its count, must not. -/

namespace LibfsSpecs

open LibfsHeap LibfsStdio LibfsCommon LibfsInode LibfsOperations LibfsRun

/-! ## The tables, read from their head pointers -/

/-- What reading the two tables shows when names and inodes agree. -/
structure Consistent (s : State) : Prop where
  read : ∃ entries inodes, s.filenameTable.values = .ok entries ∧
    s.inodeTable.values = .ok inodes ∧
    (∀ x ∈ entries, ∃ v ∈ inodes, v.index = x.nodeIndex) ∧
    (∀ v ∈ inodes, 1 ≤ v.refCount ∧
      v.refCount = entries.countP (fun x => decide (x.nodeIndex = v.index))) ∧
    (entries.map FilenameInode.filename).Nodup ∧ (inodes.map Inode.index).Nodup

/-- The inode a name resolves to, by its address: the two searches every
    request by name starts with. -/
def resolve (s : State) (name : Filename) : C Ptr := do
  let (found, nodeIndex) ← getInodeIndexForFilename s.filenameTable name 0
  if found = .success then s.inodeTable.find (fun i => i.index = nodeIndex)
  else .ok none

/-- `name` resolves to nothing any more, and all other names to what they
    resolved to. -/
structure UnlinksOnly (s s' : State) (name : Filename) : Prop where
  gone : resolve s' name = .ok none
  others : ∀ other, other ≠ name → ∃ q, resolve s other = .ok q ∧ resolve s' other = .ok q

/-- No number wraps around and no list loses its head. -/
structure KeepsHeads (s : State) (e : Event) : Prop where
  /-- A new inode gets an index nobody holds. -/
  fresh : AddsInode s e.request → ∀ p ∈ s.inodeTable.live, p.2.index ≠ nextIndex s.inodeTable
  /-- A link is not the one that is too many for the count. -/
  counts : ∀ args l r a v, e.request = .link args → lookup s.filenameTable args.linkname = none →
    FoundInode s.inodeTable (nodeOf s.filenameTable args.filename) l r a v →
    readDenied args.fileOwner args.fileGroup ⟨v.owner, v.ownerGroup, v.mode⟩ = false →
    v.refCount + 1 < 4294967296
  /-- An unlinked entry is not the first one, nor is an inode that loses its
      last name. -/
  heads : ∀ args ln rn b x l r a v, e.request = .unlink args →
    s.filenameTable.Found (fun x => x.filename = args.name) ln rn b x →
    FoundInode s.inodeTable x.nodeIndex l r a v → ln ≠ [] ∧ (v.refCount = 1 → l ≠ [])

/-! ## The invariant -/

/-- The indices of the live inodes. -/
def indices (t : Table Inode) : List Nat := t.live.map fun p => p.2.index

/-- The names of the live entries. -/
def names (t : Table FilenameInode) : List Filename := t.live.map fun p => p.2.filename

/-- The indices the live entries carry. -/
def nodes (t : Table FilenameInode) : List Nat := t.live.map fun p => p.2.nodeIndex

/-- Names and inodes agree, and both lists can be walked. -/
structure Agree (ti : Table Inode) (tn : Table FilenameInode) : Prop where
  inodes : ti.Intact
  entries : tn.Intact
  distinct : (indices ti).Nodup
  unique : (names tn).Nodup
  live : ∀ n ∈ nodes tn, n ∈ indices ti
  named : ∀ p ∈ ti.live, p.2.index ∈ nodes tn
  counted : ∀ p ∈ ti.live, p.2.refCount = (nodes tn).count p.2.index
  bounded : ∀ p ∈ ti.live, p.2.refCount < 4294967296

/-- Nothing is named and nothing is there. -/
theorem agree_init : Agree State.init.inodeTable State.init.filenameTable where
  inodes := Table.intact_empty
  entries := Table.intact_empty
  distinct := List.nodup_nil
  unique := List.nodup_nil
  live := fun _ h => nomatch h
  named := fun _ h => nomatch h
  counted := fun _ h => nomatch h
  bounded := fun _ h => nomatch h

/-- A file has a name. -/
theorem Agree.pos {ti : Table Inode} {tn : Table FilenameInode} (h : Agree ti tn)
    {p : Nat × Inode} (hp : p ∈ ti.live) : 1 ≤ p.2.refCount := by
  rw [h.counted p hp]
  exact List.count_pos_iff.mpr (h.named p hp)

/-- The claimed view follows from the invariant. -/
theorem Agree.consistent {s : State} (hw : WellLinked s)
    (h : Agree s.inodeTable s.filenameTable) : Consistent s := by
  refine ⟨_, _, hw.names.values_eq h.entries, hw.inodes.values_eq h.inodes, ?_, ?_, ?_, ?_⟩
  · intro x hx
    obtain ⟨q, hq, rfl⟩ := List.mem_map.mp hx
    obtain ⟨p, hp, he⟩ := List.mem_map.mp (h.live _ (List.mem_map_of_mem hq))
    exact ⟨p.2, List.mem_map_of_mem hp, he⟩
  · intro v hv
    obtain ⟨p, hp, rfl⟩ := List.mem_map.mp hv
    refine ⟨h.pos hp, ?_⟩
    rw [h.counted p hp]
    unfold nodes List.count
    rw [List.countP_map, List.countP_map]
    refine List.countP_congr fun q _ => ?_
    simp
  · rw [List.map_map]
    exact h.unique
  · rw [List.map_map]
    exact h.distinct

/-! ## Searches -/

/-- A name that leads somewhere has an entry. -/
theorem lookup_mem {t : Table FilenameInode} {name : Filename} {n : Nat}
    (h : lookup t name = some n) : ∃ p ∈ t.live, p.2.filename = name ∧ p.2.nodeIndex = n := by
  unfold lookup at h
  obtain ⟨p, hp, rfl⟩ := Option.map_eq_some_iff.mp h
  exact ⟨p, List.mem_of_find?_eq_some hp, by simpa using List.find?_some hp, rfl⟩

/-- A free name has none. -/
theorem lookup_not_mem {t : Table FilenameInode} {name : Filename} (h : lookup t name = none) :
    name ∉ names t := by
  intro hm
  obtain ⟨p, hp, he⟩ := List.mem_map.mp hm
  exact lookup_eq_none.mp h p hp he

/-- What the two searches of a request by name come to. -/
theorem Agree.resolve_eq {s : State} (hw : WellLinked s)
    (h : Agree s.inodeTable s.filenameTable) (name : Filename) :
    (lookup s.filenameTable name = none ∧ resolve s name = .ok none) ∨
      ∃ n a v, lookup s.filenameTable name = some n ∧ (a, v) ∈ s.inodeTable.live ∧
        v.index = n ∧ resolve s name = .ok (some a) := by
  have hget := getIndex_eq hw.names h.entries name 0
  cases hl : lookup s.filenameTable name with
  | none =>
      rw [hl] at hget
      refine Or.inl ⟨rfl, ?_⟩
      rw [resolve, hget]
      rfl
  | some n =>
      rw [hl] at hget
      obtain ⟨p, hp, -, rfl⟩ := lookup_mem hl
      obtain ⟨q, hq, he⟩ := List.mem_map.mp (h.live _ (List.mem_map_of_mem hp))
      have hinode := hw.inodes.find_eq h.inodes (fun i => decide (i.index = p.2.nodeIndex))
      cases hfi : s.inodeTable.live.find? (fun q => decide (q.2.index = p.2.nodeIndex)) with
      | none =>
          have := List.find?_eq_none.mp hfi q hq
          simp [he] at this
      | some q' =>
          rw [hfi] at hinode
          refine Or.inr ⟨p.2.nodeIndex, q'.1, q'.2, rfl, List.mem_of_find?_eq_some hfi,
            by simpa using List.find?_some hfi, ?_⟩
          rw [resolve, hget]
          exact hinode

/-- A removed entry is not found, all others are. -/
theorem lookup_detached {t t' : Table FilenameInode} {l r : List (Nat × FilenameInode)} {b : Nat}
    {x : FilenameInode} (h : t.Detached t' l r b x) (hu : (names t).Nodup) :
    lookup t' x.filename = none ∧
      ∀ name, name ≠ x.filename → lookup t' name = lookup t name := by
  change (entryNames t.live).Nodup at hu
  rw [h.before] at hu
  constructor
  · show entryLookup t'.live x.filename = none
    rw [h.after]
    exact entryLookup_none (entryNames_distinct.mp hu).1
  · intro name hne
    show entryLookup t'.live name = entryLookup t.live name
    rw [h.before, h.after, entryLookup_skip hne.symm]

/-! ## One change after the other -/

/-- A change of an inode leaves its index. -/
theorem indices_updated {t t' : Table Inode} {l r : List (Nat × Inode)} {a : Nat} {v v' : Inode}
    (hup : t.Updated t' l r a v v') (hindex : v'.index = v.index) : indices t' = indices t := by
  unfold indices
  rw [hup.before, hup.after, List.map_append, List.map_append, List.map_cons, List.map_cons]
  show _ ++ v'.index :: _ = _
  rw [hindex]

/-- Which live inode carries an index. -/
theorem Agree.index_inj {ti : Table Inode} {tn : Table FilenameInode} (h : Agree ti tn)
    {p q : Nat × Inode} (hp : p ∈ ti.live) (hq : q ∈ ti.live) (he : p.2.index = q.2.index) :
    p = q :=
  List.inj_on_of_nodup_map h.distinct hp hq he

/-- The other inodes carry other indices. -/
theorem Agree.others {ti ti' : Table Inode} {tn : Table FilenameInode} (h : Agree ti tn)
    {l r : List (Nat × Inode)} {a : Nat} {v v' : Inode} (hup : ti.Updated ti' l r a v v')
    {p : Nat × Inode} (hp : p ∈ ti'.live) :
    (p ∈ ti.live ∧ p.1 ≠ a ∧ p.2.index ≠ v.index) ∨ p = (a, v') := by
  rcases hup.mem.mp hp with ⟨hne, hq⟩ | rfl
  · exact Or.inl ⟨hq, hne, fun he => hne (congrArg Prod.fst (h.index_inj hq hup.mem_old he))⟩
  · exact Or.inr rfl

/-- Inodes whose index and count stay the same. -/
theorem Agree.touched {ti ti' : Table Inode} {tn : Table FilenameInode} (h : Agree ti tn)
    {l r : List (Nat × Inode)} {a : Nat} {v v' : Inode} (hup : ti.Updated ti' l r a v v')
    (hindex : v'.index = v.index) (hcount : v'.refCount = v.refCount) : Agree ti' tn := by
  have hsame := indices_updated hup hindex
  have hold : ∀ p ∈ ti'.live, ∃ q ∈ ti.live, q.2.index = p.2.index ∧
      q.2.refCount = p.2.refCount := by
    intro p hp
    rcases hup.mem.mp hp with ⟨-, hq⟩ | rfl
    · exact ⟨p, hq, rfl, rfl⟩
    · exact ⟨(a, v), hup.mem_old, hindex.symm, hcount.symm⟩
  constructor
  case inodes => exact hup.intact.mpr h.inodes
  case entries => exact h.entries
  case distinct =>
    rw [hsame]
    exact h.distinct
  case unique => exact h.unique
  case live =>
    rw [hsame]
    exact h.live
  case named =>
    intro p hp
    obtain ⟨q, hq, he, -⟩ := hold p hp
    rw [← he]
    exact h.named q hq
  case counted =>
    intro p hp
    obtain ⟨q, hq, he, hc⟩ := hold p hp
    rw [← he, ← hc]
    exact h.counted q hq
  case bounded =>
    intro p hp
    obtain ⟨q, hq, -, hc⟩ := hold p hp
    rw [← hc]
    exact h.bounded q hq

/-- Another name in the place of one. -/
theorem names_renamed {tn tn' : Table FilenameInode} {l r : List (Nat × FilenameInode)} {b : Nat}
    {x : FilenameInode} {name : Filename}
    (hn : tn.Updated tn' l r b x { x with filename := name }) (hu : (names tn).Nodup)
    (hfree : lookup tn name = none) : (names tn').Nodup := by
  have hnot : name ∉ entryNames tn.live := lookup_not_mem hfree
  change (entryNames tn.live).Nodup at hu
  show (entryNames tn'.live).Nodup
  rw [hn.before] at hnot hu
  rw [hn.after]
  exact distinct_renamed hu hnot

/-- The entry that is renamed keeps its index. -/
theorem Agree.renamed {ti : Table Inode} {tn tn' : Table FilenameInode} (h : Agree ti tn)
    {l r : List (Nat × FilenameInode)} {b : Nat} {x : FilenameInode} {name : Filename}
    (hn : tn.Updated tn' l r b x { x with filename := name }) (hfree : lookup tn name = none) :
    Agree ti tn' := by
  have hnodes : nodes tn' = nodes tn := by
    unfold nodes
    rw [hn.before, hn.after, List.map_append, List.map_append, List.map_cons, List.map_cons]
  exact ⟨h.inodes, hn.intact.mpr h.entries, h.distinct, names_renamed hn h.unique hfree,
    by rw [hnodes]; exact h.live, by rw [hnodes]; exact h.named, by rw [hnodes]; exact h.counted,
    h.bounded⟩

/-- A new entry comes last. -/
theorem nodes_pushed {tn tn' : Table FilenameInode} {b : Nat} {x : FilenameInode}
    (hn : tn.Pushed tn' b x) : nodes tn' = nodes tn ++ [x.nodeIndex] := by
  unfold nodes
  rw [hn.after, List.map_append]
  rfl

/-- A free name is added to distinct ones. -/
theorem names_pushed {tn tn' : Table FilenameInode} {b : Nat} {x : FilenameInode}
    (hn : tn.Pushed tn' b x) (hu : (names tn).Nodup) (hfree : lookup tn x.filename = none) :
    (names tn').Nodup := by
  have hnames : names tn' = names tn ++ [x.filename] := by
    unfold names
    rw [hn.after, List.map_append]
    rfl
  rw [hnames, ← List.concat_eq_append]
  exact hu.concat (lookup_not_mem hfree)

/-- How often an index occurs when one entry more carries an index. -/
theorem count_snoc (xs : List Nat) (m n : Nat) :
    (xs ++ [m]).count n = xs.count n + if m = n then 1 else 0 := by
  rw [List.count_append, List.count_singleton]
  by_cases he : m = n
  · rw [if_pos he, if_pos (by simpa using he)]
  · rw [if_neg he, if_neg (by simpa using he)]

/-- A new inode, with an index nobody holds, and its only name. -/
theorem Agree.added {ti ti' : Table Inode} {tn tn' : Table FilenameInode} (h : Agree ti tn)
    {b n : Nat} {name : Filename} (hfresh : ∀ p ∈ ti.live, p.2.index ≠ n)
    (hfree : lookup tn name = none) (hn : tn.Pushed tn' b ⟨n, name⟩) (hi : ti'.Intact)
    (hindices : indices ti' = indices ti ++ [n])
    (hold : ∀ p ∈ ti'.live, (∃ q ∈ ti.live, q.2.index = p.2.index ∧
      q.2.refCount = p.2.refCount) ∨ (p.2.index = n ∧ p.2.refCount = 1)) : Agree ti' tn' := by
  have hnot : n ∉ indices ti := by
    intro hm
    obtain ⟨p, hp, he⟩ := List.mem_map.mp hm
    exact hfresh p hp he
  have hnodes := nodes_pushed hn
  constructor
  case inodes => exact hi
  case entries => exact hn.intact
  case distinct =>
    rw [hindices, ← List.concat_eq_append]
    exact h.distinct.concat hnot
  case unique => exact names_pushed hn h.unique hfree
  case live =>
    intro m hm
    rw [hnodes] at hm
    rw [hindices]
    rcases List.mem_append.mp hm with hm | hm
    · exact List.mem_append_left _ (h.live m hm)
    · exact List.mem_append_right _ hm
  case named =>
    intro p hp
    rw [hnodes]
    rcases hold p hp with ⟨q, hq, he, -⟩ | ⟨he, -⟩
    · rw [← he]
      exact List.mem_append_left _ (h.named q hq)
    · rw [he]
      exact List.mem_append_right _ (List.mem_singleton.mpr rfl)
  case counted =>
    intro p hp
    rw [hnodes, count_snoc]
    rcases hold p hp with ⟨q, hq, he, hc⟩ | ⟨he, hc⟩
    · rw [← he, ← hc, if_neg (hfresh q hq).symm, Nat.add_zero]
      exact h.counted q hq
    · have hzero : (nodes tn).count n = 0 :=
        List.count_eq_zero.mpr fun hm => hnot (h.live n hm)
      rw [he, hc, hzero, if_pos rfl]
  case bounded =>
    intro p hp
    rcases hold p hp with ⟨q, hq, -, hc⟩ | ⟨-, hc⟩
    · rw [← hc]
      exact h.bounded q hq
    · rw [hc]
      decide

/-- One more name for an inode whose count does not wrap around. -/
theorem Agree.linked {ti ti' : Table Inode} {tn tn' : Table FilenameInode} (h : Agree ti tn)
    {l r : List (Nat × Inode)} {a b : Nat} {v v' : Inode} {name : Filename}
    (hup : ti.Updated ti' l r a v v') (hindex : v'.index = v.index)
    (hcount : v'.refCount = v.refCount + 1) (hlt : v.refCount + 1 < 4294967296)
    (hfree : lookup tn name = none) (hn : tn.Pushed tn' b ⟨v.index, name⟩) : Agree ti' tn' := by
  have hsame := indices_updated hup hindex
  have hnodes := nodes_pushed hn
  constructor
  case inodes => exact hup.intact.mpr h.inodes
  case entries => exact hn.intact
  case distinct =>
    rw [hsame]
    exact h.distinct
  case unique => exact names_pushed hn h.unique hfree
  case live =>
    intro m hm
    rw [hnodes] at hm
    rw [hsame]
    rcases List.mem_append.mp hm with hm | hm
    · exact h.live m hm
    · rw [List.mem_singleton.mp hm]
      exact List.mem_map_of_mem hup.mem_old
  case named =>
    intro p hp
    rw [hnodes]
    rcases h.others hup hp with ⟨hq, -, -⟩ | rfl
    · exact List.mem_append_left _ (h.named p hq)
    · exact List.mem_append_right _ (List.mem_singleton.mpr hindex)
  case counted =>
    intro p hp
    rw [hnodes, count_snoc]
    rcases h.others hup hp with ⟨hq, -, hne⟩ | rfl
    · rw [if_neg hne.symm, Nat.add_zero]
      exact h.counted p hq
    · rw [if_pos hindex.symm, hcount, hindex]
      exact congrArg (· + 1) (h.counted _ hup.mem_old)
  case bounded =>
    intro p hp
    rcases h.others hup hp with ⟨hq, -, -⟩ | rfl
    · exact h.bounded p hq
    · rw [hcount]
      exact hlt

/-- How often an index occurs before and after an entry is removed. -/
theorem count_detached {tn tn' : Table FilenameInode} {l r : List (Nat × FilenameInode)} {b : Nat}
    {x : FilenameInode} (hn : tn.Detached tn' l r b x) (n : Nat) :
    (nodes tn).count n = (nodes tn').count n + if x.nodeIndex = n then 1 else 0 := by
  unfold nodes
  rw [hn.before, hn.after, List.map_append, List.map_append, List.map_cons, List.count_append,
    List.count_append, List.count_cons, ← Nat.add_assoc]
  by_cases he : x.nodeIndex = n
  · rw [if_pos he, if_pos (by simpa using he)]
  · rw [if_neg he, if_neg (by simpa using he)]

/-- With an entry less there is no new index. -/
theorem mem_nodes_detached {tn tn' : Table FilenameInode} {l r : List (Nat × FilenameInode)}
    {b : Nat} {x : FilenameInode} (hn : tn.Detached tn' l r b x) {n : Nat} (hm : n ∈ nodes tn') :
    n ∈ nodes tn := by
  have hpos := List.count_pos_iff.mpr hm
  refine List.count_pos_iff.mp ?_
  rw [count_detached hn n]
  omega

/-- With an entry less the names are still distinct. -/
theorem names_detached {tn tn' : Table FilenameInode} {l r : List (Nat × FilenameInode)} {b : Nat}
    {x : FilenameInode} (hn : tn.Detached tn' l r b x) (hu : (names tn).Nodup) :
    (names tn').Nodup := by
  unfold names at hu ⊢
  rw [hn.before, List.map_append, List.map_cons] at hu
  rw [hn.after, List.map_append]
  exact (List.nodup_cons.mp (List.nodup_middle.mp hu)).2

/-- The count after a name is taken away. -/
theorem Agree.refCount_unlinked {ti : Table Inode} {tn : Table FilenameInode} (h : Agree ti tn)
    {p : Nat × Inode} (hp : p ∈ ti.live) :
    u32 (p.2.refCount + 4294967295) + 1 = (nodes tn).count p.2.index := by
  have hpos := h.pos hp
  have hlt := h.bounded p hp
  rw [← h.counted p hp]
  unfold u32
  omega

/-- One name fewer for an inode that has others. -/
theorem Agree.unlinkedName {ti ti' : Table Inode} {tn tn' : Table FilenameInode}
    (h : Agree ti tn) {l r : List (Nat × Inode)} {a : Nat} {v v' : Inode}
    {ln rn : List (Nat × FilenameInode)} {b : Nat} {x : FilenameInode}
    (hup : ti.Updated ti' l r a v v') (hindex : v'.index = v.index)
    (hcount : v'.refCount = u32 (v.refCount + 4294967295)) (hne : v'.refCount ≠ 0)
    (hx : x.nodeIndex = v.index) (hn : tn.Detached tn' ln rn b x) (hfirst : ln ≠ []) :
    Agree ti' tn' := by
  have hless := h.refCount_unlinked hup.mem_old
  have hsame := indices_updated hup hindex
  have hcounts : ∀ p ∈ ti'.live, p.2.refCount = (nodes tn').count p.2.index := by
    intro p hp
    have hd := count_detached hn p.2.index
    rcases h.others hup hp with ⟨hq, -, hne⟩ | rfl
    · rw [if_neg (fun he => hne (he.symm.trans hx)), Nat.add_zero] at hd
      rw [h.counted p hq, hd]
    · rw [if_pos (hx.trans hindex.symm)] at hd
      change (nodes tn).count v'.index = (nodes tn').count v'.index + 1 at hd
      change u32 (v.refCount + 4294967295) + 1 = (nodes tn).count v.index at hless
      show v'.refCount = (nodes tn').count v'.index
      rw [hindex] at hd ⊢
      omega
  constructor
  case inodes => exact hup.intact.mpr h.inodes
  case entries => exact hn.intact hfirst h.entries
  case distinct =>
    rw [hsame]
    exact h.distinct
  case unique => exact names_detached hn h.unique
  case live =>
    intro m hm
    rw [hsame]
    exact h.live m (mem_nodes_detached hn hm)
  case named =>
    intro p hp
    refine List.count_pos_iff.mp ?_
    rw [← hcounts p hp]
    rcases h.others hup hp with ⟨hq, -, -⟩ | rfl
    · exact h.pos hq
    · exact Nat.pos_of_ne_zero hne
  case counted => exact hcounts
  case bounded =>
    intro p hp
    rcases h.others hup hp with ⟨hq, -, -⟩ | rfl
    · exact h.bounded p hq
    · rw [hcount]
      exact Nat.mod_lt _ (by decide)

/-- The last name of an inode goes, and the inode with it. -/
theorem Agree.unlinkedFile {ti t ti' : Table Inode} {tn tn' : Table FilenameInode}
    (h : Agree ti tn) {l r : List (Nat × Inode)} {a : Nat} {v v' : Inode}
    {ln rn : List (Nat × FilenameInode)} {b : Nat} {x : FilenameInode}
    (hup : ti.Updated t l r a v v') (hi : t.Detached ti' l r a v')
    (hcount : u32 (v.refCount + 4294967295) = 0)
    (hx : x.nodeIndex = v.index) (hn : tn.Detached tn' ln rn b x) (hfirst : ln ≠ [])
    (hlast : v.refCount = 1 → l ≠ []) : Agree ti' tn' := by
  -- the entry was the only one of the inode
  have hone : (nodes tn).count v.index = 1 := by
    rw [← h.refCount_unlinked hup.mem_old]
    show u32 (v.refCount + 4294967295) + 1 = 1
    rw [hcount]
  have hrefs : v.refCount = 1 := (h.counted _ hup.mem_old).trans hone
  have hgone : v.index ∉ nodes tn' := by
    intro hm
    have hpos := List.count_pos_iff.mpr hm
    have hd := count_detached hn v.index
    rw [if_pos hx] at hd
    omega
  have hindices : indices ti
      = l.map (fun p => p.2.index) ++ v.index :: r.map (fun p => p.2.index) := by
    unfold indices
    rw [hup.before, List.map_append, List.map_cons]
  have hindices' : indices ti' = l.map (fun p => p.2.index) ++ r.map (fun p => p.2.index) := by
    unfold indices
    rw [hi.after, List.map_append]
  have hdist := h.distinct
  rw [hindices] at hdist
  obtain ⟨-, hdist⟩ := List.nodup_cons.mp (List.nodup_middle.mp hdist)
  have hold : ∀ p ∈ ti'.live, p ∈ ti.live ∧ p.2.index ≠ v.index := by
    intro p hp
    obtain ⟨hne, hp⟩ := hi.mem.mp hp
    rcases h.others hup hp with ⟨hq, -, hidx⟩ | rfl
    · exact ⟨hq, hidx⟩
    · exact absurd rfl hne
  have hcounts : ∀ p ∈ ti'.live, p.2.refCount = (nodes tn').count p.2.index := by
    intro p hp
    obtain ⟨hq, hne⟩ := hold p hp
    have hd := count_detached hn p.2.index
    rw [if_neg (fun he => hne (he.symm.trans hx)), Nat.add_zero] at hd
    rw [h.counted p hq, hd]
  constructor
  case inodes => exact hi.intact (hlast hrefs) (hup.intact.mpr h.inodes)
  case entries => exact hn.intact hfirst h.entries
  case distinct =>
    rw [hindices']
    exact hdist
  case unique => exact names_detached hn h.unique
  case live =>
    intro m hm
    have hne : m ≠ v.index := fun he => hgone (he ▸ hm)
    have hmem := h.live m (mem_nodes_detached hn hm)
    rw [hindices] at hmem
    rw [hindices']
    rcases List.mem_append.mp hmem with hm | hm
    · exact List.mem_append_left _ hm
    · rcases List.mem_cons.mp hm with he | hm
      · exact absurd he hne
      · exact List.mem_append_right _ hm
  case named =>
    intro p hp
    refine List.count_pos_iff.mp ?_
    rw [← hcounts p hp]
    exact h.pos (hold p hp).1
  case counted => exact hcounts
  case bounded =>
    intro p hp
    exact h.bounded p (hold p hp).1

/-- A new inode comes last. -/
theorem indices_pushed {t t' : Table Inode} {a : Nat} {v : Inode} (hi : t.Pushed t' a v) :
    indices t' = indices t ++ [v.index] := by
  unfold indices
  rw [hi.after, List.map_append]
  rfl

/-- Names and inodes agree after every request that keeps the heads. -/
theorem Change.agree {s s' : State} {e : Event} (hw : WellLinked s)
    (hs : Sound s.inodeTable s.blocks) (h : Agree s.inodeTable s.filenameTable)
    (hk : KeepsHeads s e) (hc : Change s e s') : Agree s'.inodeTable s'.filenameTable := by
  obtain ⟨hfresh, hlink, hunlink⟩ := hk
  cases hc with
  | refused | closed | sought => exact h
  | created hreq _ hfree hi hn =>
      have hnew : ∀ p ∈ s.inodeTable.live, p.2.index ≠ nextIndex s.inodeTable :=
        hfresh (by rw [hreq]; exact hfree)
      refine h.added hnew hfree hn hi.intact (indices_pushed hi) fun p hp => ?_
      rcases hi.mem.mp hp with hq | rfl
      · exact Or.inl ⟨p, hq, rfl, rfl⟩
      · exact Or.inr ⟨rfl, rfl⟩
  | touched _ _ hi hsame hcount => exact h.touched hi hsame.index hcount
  | renamed _ _ hfree _ hn => exact h.renamed hn hfree
  | @linked args t l r a v tn b hreq _ hfree hv hi hn hallowed =>
      have hlt : v.refCount + 1 < 4294967296 :=
        hlink args l r a v hreq hfree hv hallowed
      exact h.linked hi rfl (u32_of_lt hlt) hlt hfree hn
  | @symlinked args t₁ c tn x lp rp a vp t₂ lc rc b vc t₃ _ hreq hadds hfree hi hn hp hip hc hic
      hcopy =>
      have hnew := hfresh hadds
      obtain ⟨rfl, hsame, hzero⟩ := child_is_new hi hip ⟨rfl, rfl, rfl⟩ rfl hnew hc
      have hthree : Agree t₃ tn := by
        refine h.added hnew hfree hn
          (hic.intact.mpr (hip.intact.mpr hi.intact)) ?_ fun p hp => ?_
        · rw [indices_updated hic rfl, indices_updated hip rfl, indices_pushed hi]
          rfl
        · rcases hic.mem.mp hp with ⟨hne, hp⟩ | rfl
          · -- an inode that was there before
            rcases hip.mem.mp hp with ⟨-, hp⟩ | rfl
            · rcases hi.mem.mp hp with hq | rfl
              · exact Or.inl ⟨p, hq, rfl, rfl⟩
              · exact absurd rfl hne
            · rcases hi.mem.mp hip.mem_old with hq | he
              · exact Or.inl ⟨_, hq, rfl, rfl⟩
              · exact absurd (congrArg Prod.fst he) hne
          · refine Or.inr ⟨hsame.index, ?_⟩
            show u32 (vc.refCount + 1) = 1
            rw [hzero]
            rfl
      have hs3 := ((hs.pushed hi rfl).touched hip ⟨rfl, rfl, rfl⟩).touched hic ⟨rfl, rfl, rfl⟩
      have hmid : WellLinked { s with inodeTable := t₃, filenameTable := tn } :=
        ⟨hic.wf, hn.wf, hw.descs, hw.headed⟩
      rcases copyContents_ok hmid hic.after hcopy with
        ⟨_, _, _, _, _, _, _, hbuf, hwr, -, hup, rfl⟩ | ⟨-, rfl⟩
      · obtain ⟨p, ks, hwrote, -⟩ := wrote_of_writeInode hbuf hwr (hs3.blocksInside hup.mem_old)
        exact hthree.touched hup hwrote.index hwrote.refCount
      · exact hthree
  | opened _ _ _ _ _ _ hi => exact h.touched hi rfl rfl
  | wrote _ hdata _ _ hv hwr _ hi =>
      have hin := hs.blocksInside hv.mem
      obtain ⟨p, ks, hwrote, -⟩ :=
        wrote_of_writeInode (slice_all hdata).ge hwr (hin.congr rfl)
      exact h.touched hi hwrote.index hwrote.refCount
  | read _ _ _ _ _ _ hi => exact h.touched hi rfl rfl
  | unlinkedName hreq _ hv hx hn hi hcount =>
      have hnode := nodeOf_found hx
      rw [hnode] at hv
      exact h.unlinkedName hi rfl rfl hcount (FoundInode.index hv).symm hn
        (hunlink _ _ _ _ _ _ _ _ _ hreq hx hv).1
  | unlinkedFile hreq _ hv hx hn hi hcount hi' _ =>
      have hnode := nodeOf_found hx
      rw [hnode] at hv
      obtain ⟨hfirst, hlast⟩ := hunlink _ _ _ _ _ _ _ _ _ hreq hx hv
      exact h.unlinkedFile hi hi' hcount (FoundInode.index hv).symm hn hfirst hlast

/-! ## Every run that keeps the heads -/

/-- In every state of a guarded run names and inodes fit each other. -/
theorem agree_of_run {es : List Event} {s : State}
    (hr : Run (guarded KeepsHeads Step) State.init es s) :
    Agree s.inodeTable s.filenameTable := by
  induction hr with
  | start => exact agree_init
  | next hr hs ih =>
      have hw := wellLinked_of_run hr.unguard
      exact (step_change hw hs.2).agree hw (sound_of_run hr.unguard) ih hs.1

/-- An unlinked name is gone, and no other name resolves to anything else. -/
theorem Agree.unlinksOnly {s s' : State} {e : Event} {args : UnlinkArgs} (hw : WellLinked s)
    (hs : Sound s.inodeTable s.blocks) (h : Agree s.inodeTable s.filenameTable)
    (h' : Agree s'.inodeTable s'.filenameTable) (hc : Change s e s')
    (hreq : e.request = .unlink args) (hst : e.response.status = .success) :
    UnlinksOnly s s' args.name := by
  have hw' := hc.wellLinked hw
  have hentry : lookup s'.filenameTable args.name = none ∧ ∀ other, other ≠ args.name →
      lookup s'.filenameTable other = lookup s.filenameTable other := by
    have hone : ∀ {ln rn : List (Nat × FilenameInode)} {b : Nat} {x : FilenameInode}
        {tn : Table FilenameInode},
        s.filenameTable.Found (fun x => x.filename = args.name) ln rn b x →
        s.filenameTable.Detached tn ln rn b x → lookup tn args.name = none ∧
          ∀ other, other ≠ args.name → lookup tn other = lookup s.filenameTable other := by
      intro ln rn b x tn hx hn
      have hname : x.filename = args.name := of_decide_eq_true hx.passes
      rw [← hname]
      exact lookup_detached hn h.unique
    cases hc with
    | refused hne => exact absurd hst hne
    | unlinkedName hreq' _ _ hx hn =>
        cases hreq.symm.trans hreq'
        exact hone hx hn
    | unlinkedFile hreq' _ _ hx hn =>
        cases hreq.symm.trans hreq'
        exact hone hx hn
    | touched hreq' =>
        rcases hreq' with ⟨_, hreq'⟩ | ⟨_, hreq'⟩
        · exact nomatch hreq.symm.trans hreq'
        · exact nomatch hreq.symm.trans hreq'
    | created hreq' | renamed hreq' | linked hreq' | symlinked hreq' | opened hreq' | closed hreq'
    | wrote hreq' | read hreq' | sought hreq' => exact nomatch hreq.symm.trans hreq'
  constructor
  · rcases h'.resolve_eq hw' args.name with ⟨-, hr⟩ | ⟨n, a, v, hn, -⟩
    · exact hr
    · exact nomatch hentry.1.symm.trans hn
  · intro other hne
    have hsame := hentry.2 other hne
    rcases h'.resolve_eq hw' other with ⟨hn', hr'⟩ | ⟨n', a', v', hn', ha', hidx', hr'⟩
    · rcases h.resolve_eq hw other with ⟨-, hr⟩ | ⟨n, a, v, hn, -⟩
      · exact ⟨none, hr, hr'⟩
      · exact nomatch hn'.symm.trans (hsame.trans hn)
    · rcases h.resolve_eq hw other with ⟨hn, -⟩ | ⟨n, a, v, hn, ha, hidx, hr⟩
      · exact nomatch hn.symm.trans (hsame.symm.trans hn')
      · -- the inode found afterwards was there before, under the same index
        have hnn : n' = n := Option.some.inj (hn'.symm.trans (hsame.trans hn))
        rcases hc.inode_cases hw hs ha' with ⟨w, hmem, hw'⟩ | ⟨hadds, -⟩
        · have he := h.index_inj hmem ha ((hw'.trans hidx').trans (hnn.trans hidx.symm))
          cases he
          exact ⟨some a', hr, hr'⟩
        · rw [hreq] at hadds
          exact hadds.elim

/-- In every run whose requests keep the heads, names and inodes agree and an
    unlink removes its name and nothing else. -/
theorem namespace_consistent {es : List Event} {s : State}
    (hr : Run (guarded KeepsHeads Step) State.init es s) :
    Consistent s ∧ ∀ e s' args, guarded KeepsHeads Step s e s' → e.request = .unlink args →
      e.response.status = .success → UnlinksOnly s s' args.name := by
  have hw := wellLinked_of_run hr.unguard
  have h := agree_of_run hr
  refine ⟨h.consistent hw, fun e s' args hstep hreq hst => ?_⟩
  exact h.unlinksOnly hw (sound_of_run hr.unguard) (agree_of_run (.next hr hstep))
    (step_change hw hstep.2) hreq hst

/-- Two files. -/
def twoFilesRun : List Request := [.create ⟨1, 1, 0o600, nameX⟩, .create ⟨1, 1, 0o600, nameA⟩]

/-- Both get an index of their own. -/
theorem twoFiles_keeps (k : Nat) (hk : k < twoFilesRun.length) (resp : Response) :
    KeepsHeads (replay (twoFilesRun.take k)) ⟨stillEnv, twoFilesRun[k], resp⟩ := by
  match k, hk with
  | 0, _ =>
      refine ⟨fun _ => ?_, fun _ _ _ _ _ h => ?_, fun _ _ _ _ _ _ _ _ _ h => ?_⟩
      · decide +kernel
      · exact nomatch h
      · exact nomatch h
  | 1, _ =>
      refine ⟨fun _ => ?_, fun _ _ _ _ _ h => ?_, fun _ _ _ _ _ _ _ _ _ h => ?_⟩
      · decide +kernel
      · exact nomatch h
      · exact nomatch h

/-- The second one may be unlinked: neither its name nor its inode is first. -/
theorem second_keeps (resp : Response) :
    KeepsHeads (replay twoFilesRun) ⟨stillEnv, .unlink ⟨1, 1, nameA⟩, resp⟩ := by
  refine ⟨fun h => ?_, fun _ _ _ _ _ h => ?_, fun args ln rn b x l r a v hreq hx hv => ?_⟩
  · exact h.elim
  · exact nomatch h
  cases hreq
  have hname : ((replay twoFilesRun).filenameTable.live.head?.map fun p => p.2.filename)
      = some nameX := by decide +kernel
  have hindex : ∀ p ∈ (replay twoFilesRun).filenameTable.live, p.2.filename = nameA →
      p.2.nodeIndex = 1 := by decide +kernel
  have hzero : ((replay twoFilesRun).inodeTable.live.head?.map fun p => p.2.index) = some 0 := by
    decide +kernel
  have hxname : x.filename = nameA := of_decide_eq_true hx.passes
  constructor
  · rintro rfl
    rw [hx.split] at hname
    have he : x.filename = nameX := Option.some.inj hname
    exact absurd (hxname.symm.trans he) (by decide)
  · rintro - rfl
    rw [hv.split] at hzero
    have he : v.index = 0 := Option.some.inj hzero
    rw [FoundInode.index hv, hindex _ hx.mem hxname] at he
    exact nomatch he

/-- Two files of a run, and an `UNLINK` of the second. -/
theorem namespace_twoFiles : Consistent (replay twoFilesRun) ∧
    UnlinksOnly (replay twoFilesRun) (replay (twoFilesRun ++ [.unlink ⟨1, 1, nameA⟩])) nameA := by
  have hret : returns (twoFilesRun ++ [.unlink ⟨1, 1, nameA⟩]) = true := by decide +kernel
  obtain ⟨hret2, hstep⟩ := step_replay hret
  obtain ⟨es, hr⟩ := guarded_replay twoFilesRun hret2 fun k hk => twoFiles_keeps k hk _
  obtain ⟨hconsistent, hunlinks⟩ := namespace_consistent hr
  exact ⟨hconsistent, hunlinks _ _ ⟨1, 1, nameA⟩ ⟨second_keeps _, hstep⟩ rfl (by decide +kernel)⟩

/-- The requests that work on names. -/
def NamesRequest : Request → Prop
  | .create _ | .rename _ | .link _ | .symlink _ | .unlink _ => True
  | _ => False

/-- A file is created and its only name, the first entry, unlinked. -/
def firstUnlinkedRun : List Request := [.create ⟨1, 1, 0o600, nameA⟩, .unlink ⟨1, 1, nameA⟩]

/-- The head of the filename table is left pointing to the freed entry. -/
theorem first_unlink_dangles : ¬ ∀ es s, ServiceRun es s → (∀ e ∈ es, NamesRequest e.request) →
    Consistent s := by
  intro hclaim
  obtain ⟨hret, h2⟩ := @step_replay (firstUnlinkedRun.take 1) (.unlink ⟨1, 1, nameA⟩)
    (by decide +kernel)
  obtain ⟨-, h1⟩ := @step_replay [] (.create ⟨1, 1, 0o600, nameA⟩) hret
  have hconsistent := hclaim _ _ (.next (.next .start h1) h2) (by
    intro e he
    rcases List.mem_append.mp he with he | he
    · rw [List.mem_singleton.mp he]
      trivial
    · rw [List.mem_singleton.mp he]
      trivial)
  obtain ⟨entries, inodes, hread, -⟩ := hconsistent.read
  have hdangles : (replay firstUnlinkedRun).filenameTable.values = .error .undefinedBehaviour := by
    decide +kernel
  exact nomatch hread.symm.trans hdangles

end LibfsSpecs
