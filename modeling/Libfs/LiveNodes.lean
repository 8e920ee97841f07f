import Libfs.Paths
import Mathlib.Data.List.Induction

/-! # The live nodes of a table

    A table is read as the list of its live nodes in the order they were
    allocated.  Because nodes are only ever hung behind the last one, this is
    also the order of the links (`Heap.Linked`).  What an operation does to a
    table is said by what it does to this list. -/

namespace LibfsHeap

variable {α : Type}

/-! ## The live nodes -/

/-- The value at an address, if the block there is allocated. -/
def Heap.valAt (h : Heap α) (a : Nat) : Option α :=
  match h[a]? with
  | some (some c) => some c.val
  | _ => none

/-- The live nodes with their addresses, oldest first. -/
def Heap.live (h : Heap α) : List (Nat × α) :=
  (List.range h.length).filterMap fun a => (h.valAt a).map fun v => (a, v)

/-- The live nodes of a table. -/
abbrev Table.live (t : Table α) : List (Nat × α) := t.heap.live

/-- The address of the first node of a list. -/
def firstPtr (xs : List (Nat × α)) : Ptr := xs.head?.map Prod.fst

/-- The address of the last node of a list. -/
def lastPtr (xs : List (Nat × α)) : Ptr := xs.getLast?.map Prod.fst

@[simp] theorem firstPtr_nil : firstPtr ([] : List (Nat × α)) = none := rfl

@[simp] theorem firstPtr_cons (p : Nat × α) (xs : List (Nat × α)) :
    firstPtr (p :: xs) = some p.1 := rfl

@[simp] theorem lastPtr_nil : lastPtr ([] : List (Nat × α)) = none := rfl

@[simp] theorem lastPtr_concat (xs : List (Nat × α)) (p : Nat × α) :
    lastPtr (xs ++ [p]) = some p.1 := by
  simp [lastPtr]

/-- An allocated block has a value. -/
theorem Heap.valAt_eq_some {h : Heap α} {a : Nat} {v : α} :
    h.valAt a = some v ↔ ∃ c, h[a]? = some (some c) ∧ c.val = v := by
  unfold Heap.valAt
  split
  · next c hc => simp [hc]
  · next hne =>
      constructor
      · intro h'
        exact nomatch h'
      · rintro ⟨c, hc, -⟩
        exact absurd hc (hne c)

/-- The live nodes are the allocated blocks with their values. -/
theorem Heap.mem_live {h : Heap α} {a : Nat} {v : α} :
    (a, v) ∈ h.live ↔ h.valAt a = some v := by
  constructor
  · intro hm
    obtain ⟨b, -, hb⟩ := List.mem_filterMap.mp hm
    obtain ⟨w, hw, he⟩ := Option.map_eq_some_iff.mp hb
    cases he
    exact hw
  · intro hv
    obtain ⟨c, hc, -⟩ := Heap.valAt_eq_some.mp hv
    have hlt : a < h.length := (List.getElem?_eq_some_iff.mp hc).1
    exact List.mem_filterMap.mpr ⟨a, List.mem_range.mpr hlt, by rw [hv]; rfl⟩

/-- The live nodes stand in the order of their addresses. -/
theorem Heap.live_sorted (h : Heap α) :
    h.live.Pairwise (fun p q => p.1 < q.1) := by
  refine List.pairwise_filterMap.mpr (List.pairwise_lt_range.imp ?_)
  intro a b hab p hp q hq
  obtain ⟨v, -, rfl⟩ := Option.map_eq_some_iff.mp hp
  obtain ⟨w, -, rfl⟩ := Option.map_eq_some_iff.mp hq
  exact hab

/-- Around a live node stand only nodes of other addresses. -/
theorem Heap.live_split_ne {h : Heap α} {l r : List (Nat × α)} {a : Nat} {v : α}
    (hs : h.live = l ++ (a, v) :: r) :
    (∀ p ∈ l, p.1 ≠ a) ∧ (∀ p ∈ r, p.1 ≠ a) := by
  have hp := h.live_sorted
  rw [hs] at hp
  obtain ⟨-, hr, hl⟩ := List.pairwise_append.mp hp
  refine ⟨fun p hpl => ?_, fun p hpr => ?_⟩
  · exact Nat.ne_of_lt (hl p hpl (a, v) (List.mem_cons_self ..))
  · exact Nat.ne_of_gt ((List.pairwise_cons.mp hr).1 p hpr)

/-- An address carries one value. -/
theorem Heap.live_unique {h : Heap α} {a : Nat} {v w : α}
    (hv : (a, v) ∈ h.live) (hw : (a, w) ∈ h.live) : v = w := by
  rw [Heap.mem_live] at hv hw
  exact Option.some.inj (hv.symm.trans hw)

/-- Live nodes lie inside the heap. -/
theorem Heap.live_lt {h : Heap α} {a : Nat} {v : α} (hv : (a, v) ∈ h.live) :
    a < h.length := by
  obtain ⟨c, hc, -⟩ := Heap.valAt_eq_some.mp (Heap.mem_live.mp hv)
  exact (List.getElem?_eq_some_iff.mp hc).1

/-- Changing what one address carries changes one entry of the live nodes. -/
theorem Heap.live_update {h h' : Heap α} {l r : List (Nat × α)} {a : Nat} {v : α}
    (o : Option α) (hs : h.live = l ++ (a, v) :: r) (hlen : h'.length = h.length)
    (hval : ∀ b, h'.valAt b = if b = a then o else h.valAt b) :
    h'.live = l ++ (o.map fun w => (a, w)).toList ++ r := by
  let step : Nat × α → Option (Nat × α) := fun p =>
    if p.1 = a then o.map fun w => (a, w) else some p
  have hcomp : h'.live = h.live.filterMap step := by
    unfold Heap.live
    rw [List.filterMap_filterMap, hlen]
    refine List.filterMap_congr fun b hb => ?_
    rw [hval b]
    by_cases hba : b = a
    · subst hba
      have hmem : (b, v) ∈ h.live := by rw [hs]; simp
      rw [Heap.mem_live.mp hmem, if_pos rfl]
      simp [step]
    · rw [if_neg hba]
      cases h.valAt b with
      | none => rfl
      | some w => simp [step, hba]
  obtain ⟨hl, hr⟩ := Heap.live_split_ne hs
  have hkeep : ∀ xs : List (Nat × α), (∀ p ∈ xs, p.1 ≠ a) → xs.filterMap step = xs := by
    intro xs hxs
    rw [List.filterMap_congr (g := some) (fun p hp => if_neg (hxs p hp))]
    exact List.filterMap_some
  rw [hcomp, hs, List.filterMap_append, List.filterMap_cons, hkeep l hl, hkeep r hr]
  cases o with
  | none => simp [step]
  | some w => simp [step]

/-- Allocation puts the new node behind all others. -/
theorem Heap.live_append (h : Heap α) (c : Cell α) :
    Heap.live (h ++ [some c]) = h.live ++ [(h.length, c.val)] := by
  unfold Heap.live
  rw [List.length_append, List.length_singleton, List.range_succ, List.filterMap_append]
  congr 1
  · refine List.filterMap_congr fun b hb => ?_
    have hlt : b < h.length := List.mem_range.mp hb
    simp [Heap.valAt, List.getElem?_append_left hlt]
  · simp [Heap.valAt]

/-! ## Well linked heaps -/

/-- Every live node points to the live nodes next to it. -/
def Heap.Linked (h : Heap α) : Prop :=
  ∀ l a v r, h.live = l ++ (a, v) :: r → h[a]? = some (some ⟨v, firstPtr r, lastPtr l⟩)

/-- The head pointer of the table is that of its first live node. -/
def Table.Intact (t : Table α) : Prop := t.head = firstPtr t.live

/-- The head pointer of the table is that of a freed node. -/
def Table.Dangling (t : Table α) : Prop :=
  ∃ a, t.head = some a ∧ t.heap[a]? = some none

/-- A table as the program can leave it: the nodes are well linked, and the
    head pointer is right or dangles. -/
structure Table.WF (t : Table α) : Prop where
  linked : t.heap.Linked
  headed : t.Intact ∨ t.Dangling

/-- An empty table is well formed. -/
theorem Table.wf_empty : (Table.empty : Table α).WF where
  linked := fun l a v r hs => by
    have : ([] : List (Nat × α)) = l ++ (a, v) :: r := hs
    simp at this
  headed := Or.inl rfl

/-- An empty table has an empty head pointer. -/
theorem Table.intact_empty : (Table.empty : Table α).Intact := rfl

/-- The first pointer leads to the first node. -/
theorem firstPtr_mem {xs : List (Nat × α)} {a : Nat} (h : firstPtr xs = some a) :
    ∃ v r, xs = (a, v) :: r := by
  cases xs with
  | nil => exact nomatch h
  | cons p r => exact ⟨p.2, r, by rw [← Option.some.inj h]⟩

/-- A live node is found in its table's list. -/
theorem Heap.live_split {h : Heap α} {a : Nat} {v : α} (hm : (a, v) ∈ h.live) :
    ∃ l r, h.live = l ++ (a, v) :: r :=
  List.append_of_mem hm

/-- Two ways of cutting a list at an element. -/
theorem split_cases {l l' r r' : List α} {x y : α} (h : l' ++ y :: r' = l ++ x :: r) :
    (∃ m, l' = l ++ x :: m ∧ r = m ++ y :: r') ∨ (l' = l ∧ y = x ∧ r' = r) ∨
      (∃ m, l = l' ++ y :: m ∧ r' = m ++ x :: r) := by
  rcases List.append_eq_append_iff.mp h with ⟨m, hl, hr⟩ | ⟨m, hl, hr⟩
  · cases m with
    | nil =>
        refine Or.inr (Or.inl ⟨?_, ?_⟩)
        · rw [hl, List.append_nil]
        · have hr' : y :: r' = x :: r := hr
          exact List.cons.inj hr'
    | cons z m =>
        have hr' : y :: r' = z :: (m ++ x :: r) := hr
        obtain ⟨hz, hr''⟩ := List.cons.inj hr'
        exact Or.inr (Or.inr ⟨m, by rw [hl, hz], hr''⟩)
  · cases m with
    | nil =>
        refine Or.inr (Or.inl ⟨?_, ?_⟩)
        · rw [hl, List.append_nil]
        · have hr' : x :: r = y :: r' := hr
          exact ⟨(List.cons.inj hr').1.symm, (List.cons.inj hr').2.symm⟩
    | cons z m =>
        have hr' : x :: r = z :: (m ++ y :: r') := hr
        obtain ⟨hz, hr''⟩ := List.cons.inj hr'
        exact Or.inl ⟨m, by rw [hl, hz], hr''⟩

/-! ## What an operation does to a table -/

/-- A search found the node at `a`: it passes the test, and none of the nodes
    `l` before it does. -/
structure Table.Found (t : Table α) (test : α → Bool) (l r : List (Nat × α)) (a : Nat)
    (v : α) : Prop where
  split : t.live = l ++ (a, v) :: r
  passes : test v = true
  first : ∀ p ∈ l, test p.2 = false

/-- The node at `a` was given the value `v'`. -/
structure Table.Updated (t t' : Table α) (l r : List (Nat × α)) (a : Nat) (v v' : α) :
    Prop where
  before : t.live = l ++ (a, v) :: r
  after : t'.live = l ++ (a, v') :: r
  wf : t'.WF
  head : t'.head = t.head
  intact : t'.Intact ↔ t.Intact
  length : t'.heap.length = t.heap.length

/-- The node at `a` has the value `v'` in place of `v` and the others are as
    they were, however the nodes are linked. -/
structure Table.Replaced (t t' : Table α) (a : Nat) (v v' : α) : Prop where
  old : (a, v) ∈ t.live
  mem : ∀ {p : Nat × α}, p ∈ t'.live ↔ (p.1 ≠ a ∧ p ∈ t.live) ∨ p = (a, v')

/-- A node was hung behind all others, at an address not used before. -/
structure Table.Pushed (t t' : Table α) (a : Nat) (v : α) : Prop where
  fresh : a = t.heap.length
  before : t.Intact
  after : t'.live = t.live ++ [(a, v)]
  wf : t'.WF
  intact : t'.Intact
  length : t'.heap.length = t.heap.length + 1

/-- The node at `a` was unhooked and freed, the head pointer left alone. -/
structure Table.Detached (t t' : Table α) (l r : List (Nat × α)) (a : Nat) (v : α) :
    Prop where
  before : t.live = l ++ (a, v) :: r
  after : t'.live = l ++ r
  wf : t'.WF
  intact : l ≠ [] → t.Intact → t'.Intact
  dangling : l = [] → t.Intact → t'.Dangling
  length : t'.heap.length = t.heap.length

/-- The node at `a` was unhooked and freed, and the head pointer followed. -/
structure Table.Removed (t t' : Table α) (l r : List (Nat × α)) (a : Nat) (v : α) :
    Prop where
  before : t.live = l ++ (a, v) :: r
  after : t'.live = l ++ r
  wf : t'.WF
  intact : t'.Intact
  length : t'.heap.length = t.heap.length

/-- The nodes of a list with one node replaced. -/
theorem Table.Updated.mem {t t' : Table α} {l r : List (Nat × α)} {a : Nat} {v v' : α}
    (h : t.Updated t' l r a v v') {p : Nat × α} :
    p ∈ t'.live ↔ (p.1 ≠ a ∧ p ∈ t.live) ∨ p = (a, v') := by
  obtain ⟨hl, hr⟩ := Heap.live_split_ne h.before
  rw [h.after, h.before, List.mem_append, List.mem_cons, List.mem_append, List.mem_cons]
  constructor
  · rintro (hp | hp | hp)
    · exact Or.inl ⟨hl p hp, Or.inl hp⟩
    · exact Or.inr hp
    · exact Or.inl ⟨hr p hp, Or.inr (Or.inr hp)⟩
  · rintro (⟨hne, hp | rfl | hp⟩ | rfl)
    · exact Or.inl hp
    · exact absurd rfl hne
    · exact Or.inr (Or.inr hp)
    · exact Or.inr (Or.inl rfl)

/-- The node was there before. -/
theorem Table.Updated.mem_old {t t' : Table α} {l r : List (Nat × α)} {a : Nat} {v v' : α}
    (h : t.Updated t' l r a v v') : (a, v) ∈ t.live := by
  rw [h.before]
  exact List.mem_append_right _ (List.mem_cons_self ..)

/-- The other nodes are as they were. -/
theorem Table.Updated.others {t t' : Table α} {l r : List (Nat × α)} {a : Nat} {v v' : α}
    (h : t.Updated t' l r a v v') {p : Nat × α} (hne : p.1 ≠ a) : p ∈ t'.live ↔ p ∈ t.live := by
  rw [h.mem]
  constructor
  · rintro (⟨-, hold⟩ | rfl)
    · exact hold
    · exact absurd rfl hne
  · intro hold
    exact Or.inl ⟨hne, hold⟩

/-- The update said without the neighbours. -/
theorem Table.Updated.replaced {t t' : Table α} {l r : List (Nat × α)} {a : Nat} {v v' : α}
    (h : t.Updated t' l r a v v') : t.Replaced t' a v v' where
  old := h.mem_old
  mem := h.mem

/-- There is one more node. -/
theorem Table.Pushed.mem {t t' : Table α} {a : Nat} {v : α} (h : t.Pushed t' a v)
    {p : Nat × α} : p ∈ t'.live ↔ p ∈ t.live ∨ p = (a, v) := by
  rw [h.after, List.mem_append, List.mem_singleton]

/-- The new node is there. -/
theorem Table.Pushed.mem_new {t t' : Table α} {a : Nat} {v : α} (h : t.Pushed t' a v) :
    (a, v) ∈ t'.live := by
  rw [h.after]
  exact List.mem_append_right _ (List.mem_singleton.mpr rfl)

/-- The new node's address was not in use. -/
theorem Table.Pushed.not_mem {t t' : Table α} {a : Nat} {v : α} (h : t.Pushed t' a v)
    {p : Nat × α} (hp : p ∈ t.live) : p.1 ≠ a := by
  rw [h.fresh]
  exact Nat.ne_of_lt (Heap.live_lt (v := p.2) hp)

/-- The nodes besides one are those at other addresses. -/
theorem mem_of_gap {h : Heap α} {l r : List (Nat × α)} {a : Nat} {v : α}
    (hs : h.live = l ++ (a, v) :: r) {p : Nat × α} :
    p ∈ l ++ r ↔ p.1 ≠ a ∧ p ∈ h.live := by
  obtain ⟨hl, hr⟩ := Heap.live_split_ne hs
  rw [hs, List.mem_append, List.mem_append, List.mem_cons]
  constructor
  · rintro (hp | hp)
    · exact ⟨hl p hp, Or.inl hp⟩
    · exact ⟨hr p hp, Or.inr (Or.inr hp)⟩
  · rintro ⟨hne, hp | rfl | hp⟩
    · exact Or.inl hp
    · exact absurd rfl hne
    · exact Or.inr hp

/-- There is one node less. -/
theorem Table.Detached.mem {t t' : Table α} {l r : List (Nat × α)} {a : Nat} {v : α}
    (h : t.Detached t' l r a v) {p : Nat × α} : p ∈ t'.live ↔ p.1 ≠ a ∧ p ∈ t.live := by
  rw [h.after]
  exact mem_of_gap h.before

/-- There is one node less here too. -/
theorem Table.Removed.mem {t t' : Table α} {l r : List (Nat × α)} {a : Nat} {v : α}
    (h : t.Removed t' l r a v) {p : Nat × α} : p ∈ t'.live ↔ p.1 ≠ a ∧ p ∈ t.live := by
  rw [h.after]
  exact mem_of_gap h.before

/-- Every node of the table has the property. -/
def Table.All (P : α → Prop) (t : Table α) : Prop := ∀ p ∈ t.live, P p.2

/-- What holds of the new node and of all others. -/
theorem Table.Pushed.all {P : α → Prop} {t t' : Table α} {a : Nat} {v : α}
    (h : t.Pushed t' a v) (hall : t.All P) (hv : P v) : t'.All P := by
  intro p hp
  rcases h.mem.mp hp with hold | rfl
  · exact hall p hold
  · exact hv

/-- What holds of all nodes, and of the new value if it held of the old one. -/
theorem Table.Replaced.all {P : α → Prop} {t t' : Table α} {a : Nat} {v v' : α}
    (h : t.Replaced t' a v v') (hall : t.All P) (hv : P v → P v') : t'.All P := by
  intro p hp
  rcases h.mem.mp hp with ⟨-, hold⟩ | rfl
  · exact hall p hold
  · exact hv (hall _ h.old)

/-- What holds of all nodes holds of those that are left. -/
theorem Table.Detached.all {P : α → Prop} {t t' : Table α} {l r : List (Nat × α)} {a : Nat}
    {v : α} (h : t.Detached t' l r a v) (hall : t.All P) : t'.All P :=
  fun p hp => hall p (h.mem.mp hp).2

end LibfsHeap
