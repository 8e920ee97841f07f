import Libfs.Unhooking

/-! # What the list operations do

    Each operation has one rule that says what it does to the list of live
    nodes; the pointer work is done in the modules below and nowhere else.
    Here the rules are read from a call that returned, and put together where
    one call takes back what another did. -/

namespace LibfsHeap

variable {α : Type}

/-! ## The same rules, read from a call that returned -/

/-- `get` returns the value of a live node. -/
theorem Table.get_ok {t : Table α} {a : Nat} {v : α} : t.get a = .ok v ↔ (a, v) ∈ t.live := by
  rw [Heap.mem_live, Heap.valAt_eq_some]
  unfold Table.get
  rw [bind_ok_iff]
  constructor
  · rintro ⟨c, hc, hv⟩
    exact ⟨c, Heap.load_ok.mp hc, Except.ok.inj hv⟩
  · rintro ⟨c, hc, rfl⟩
    exact ⟨c, Heap.load_ok.mpr hc, rfl⟩

/-- What a `put` that returned has done to the values. -/
theorem Table.put_replaced {t t' : Table α} {a : Nat} {v v' : α} (hv : (a, v) ∈ t.live)
    (hp : t.put a v' = .ok t') : t.Replaced t' a v v' := by
  obtain ⟨c, hc, hp⟩ := bind_ok_iff.mp hp
  cases hp
  have hlt : a < t.heap.length := Heap.live_lt hv
  refine ⟨hv, ?_⟩
  rintro ⟨b, w⟩
  have hval : Heap.valAt (t.heap.set a (some { c with val := v' })) b
      = if b = a then some v' else t.heap.valAt b := Heap.valAt_set hlt _ b
  show (b, w) ∈ Heap.live (t.heap.set a (some { c with val := v' })) ↔ _
  rw [Heap.mem_live, Heap.mem_live, hval]
  by_cases hba : b = a
  · rw [if_pos hba]
    constructor
    · intro hw
      rw [hba, Option.some.inj hw]
      exact Or.inr rfl
    · rintro (⟨hne, -⟩ | he)
      · exact absurd hba hne
      · exact congrArg (fun p : Nat × α => some p.2) he.symm
  · rw [if_neg hba]
    constructor
    · intro hw
      exact Or.inl ⟨hba, hw⟩
    · rintro (⟨-, hw⟩ | he)
      · exact hw
      · exact absurd (congrArg Prod.fst he) hba

/-- A `get` at a node that was found. -/
theorem Table.Found.get {t : Table α} {test : α → Bool} {l r : List (Nat × α)} {a : Nat} {v : α}
    (hf : t.Found test l r a v) : t.get a = .ok v :=
  Table.get_ok.mpr (by rw [hf.split]; simp)

/-- The node that was found is there. -/
theorem Table.Found.mem {t : Table α} {test : α → Bool} {l r : List (Nat × α)} {a : Nat} {v : α}
    (hf : t.Found test l r a v) : (a, v) ∈ t.live := by
  rw [hf.split]
  simp

/-- The node that was found is the first one that passes the test. -/
theorem Table.Found.find?_eq {t : Table α} {test : α → Bool} {l r : List (Nat × α)} {a : Nat}
    {v : α} (hf : t.Found test l r a v) :
    t.live.find? (fun p => test p.2) = some (a, v) := by
  rw [List.find?_eq_some_iff_append]
  exact ⟨hf.passes, l, r, hf.split, fun p hp => by rw [hf.first p hp]; rfl⟩

/-- Two searches for the same come to the same node. -/
theorem Table.Found.unique {t : Table α} {test : α → Bool} {l l' r r' : List (Nat × α)}
    {a a' : Nat} {v v' : α} (hf : t.Found test l r a v) (hf' : t.Found test l' r' a' v') :
    l' = l ∧ r' = r ∧ a' = a ∧ v' = v := by
  have hp : (a', v') = (a, v) := Option.some.inj (hf'.find?_eq.symm.trans hf.find?_eq)
  cases hp
  rcases split_cases (hf'.split.symm.trans hf.split) with ⟨m, rfl, -⟩ | ⟨rfl, -, rfl⟩ | ⟨m, rfl, -⟩
  · exact absurd (hf'.first (a, v) (by simp)) (by rw [hf.passes]; decide)
  · exact ⟨rfl, rfl, rfl, rfl⟩
  · exact absurd (hf.first (a, v) (by simp)) (by rw [hf.passes]; decide)

/-- The node that was found is still the first one after it changed. -/
theorem Table.Found.updated {t t' : Table α} {test : α → Bool} {l r : List (Nat × α)} {a : Nat}
    {v v' : α} (hf : t.Found test l r a v) (hup : t.Updated t' l r a v v')
    (hpass : test v' = true) : t'.Found test l r a v' where
  split := hup.after
  passes := hpass
  first := hf.first

/-- A search that would find the node at `a` does. -/
theorem Table.WF.find_of_found {t : Table α} (hw : t.WF) (hi : t.Intact) {test : α → Bool}
    {l r : List (Nat × α)} {a : Nat} {v : α} (hf : t.Found test l r a v) :
    t.find test = .ok (some a) := by
  rw [hw.find_eq hi, hf.find?_eq]
  rfl

/-- A node that was taken out of a table is freed. -/
theorem Table.Removed.freed {t t' : Table α} {l r : List (Nat × α)} {a : Nat} {v : α}
    (h : t.Removed t' l r a v) : t'.heap[a]? = some none := by
  have hmem : (a, v) ∈ t.live := by
    rw [h.before]
    exact List.mem_append_right _ (List.mem_cons_self ..)
  have hlt : a < t'.heap.length := by
    rw [h.length]
    exact Heap.live_lt hmem
  rw [List.getElem?_eq_getElem hlt]
  cases hcell : t'.heap[a] with
  | none => rfl
  | some c =>
      have hlive : (a, c.val) ∈ t'.live :=
        Heap.mem_live.mpr (Heap.valAt_eq_some.mpr
          ⟨c, by rw [List.getElem?_eq_getElem hlt, hcell], rfl⟩)
      exact absurd rfl (h.mem.mp hlive).1

/-! ## A node that is taken off again -/

/-- A well linked heap is known by its live nodes and its length. -/
theorem Heap.Linked.heap_eq {h h' : Heap α} (hl : h.Linked) (hl' : h'.Linked)
    (hlive : h'.live = h.live) (hlen : h'.length = h.length) : h' = h := by
  refine List.ext_getElem? fun a => ?_
  cases hv : h.valAt a with
  | some v =>
      obtain ⟨l, r, hs⟩ := Heap.live_split (Heap.mem_live.mpr hv)
      rw [hl l a v r hs, hl' l a v r (hlive.trans hs)]
  | none =>
      have hdead : ∀ g : Heap α, g.valAt a = none → ∀ c, g[a]? ≠ some (some c) :=
        fun g hg c hc => nomatch hg.symm.trans (Heap.valAt_eq_some.mpr ⟨c, hc, rfl⟩)
      have hv' : h'.valAt a = none := by
        cases hw : h'.valAt a with
        | none => rfl
        | some w =>
            have hm : (a, w) ∈ h.live := by
              rw [← hlive]
              exact Heap.mem_live.mpr hw
            exact nomatch hv.symm.trans (Heap.mem_live.mp hm)
      rcases Nat.lt_or_ge a h.length with hlt | hge
      · have hlt' : a < h'.length := hlen.symm ▸ hlt
        have hc := hdead h hv
        have hc' := hdead h' hv'
        rw [List.getElem?_eq_getElem hlt] at hc ⊢
        rw [List.getElem?_eq_getElem hlt'] at hc' ⊢
        cases hx : h[a] with
        | some c => exact absurd (congrArg some hx) (hc c)
        | none =>
            cases hy : h'[a] with
            | some c => exact absurd (congrArg some hy) (hc' c)
            | none => rfl
      · rw [List.getElem?_eq_none hge, List.getElem?_eq_none (hlen.symm ▸ hge)]

/-- A freed block behind all others is no node. -/
theorem Heap.live_snoc_freed (h : Heap α) : Heap.live (h ++ [none]) = h.live := by
  unfold Heap.live
  rw [List.length_append, List.length_singleton, List.range_succ, List.filterMap_append]
  have hlast : Heap.valAt (h ++ [none]) h.length = none := by simp [Heap.valAt]
  rw [List.filterMap_cons_none (by rw [hlast]; rfl), List.filterMap_nil, List.append_nil]
  refine List.filterMap_congr fun b hb => ?_
  have hlt : b < h.length := List.mem_range.mp hb
  simp [Heap.valAt, List.getElem?_append_left hlt]

/-- A freed block at the end leaves the links. -/
theorem Heap.Linked.snoc_freed {h : Heap α} (hl : h.Linked) : Heap.Linked (h ++ [none]) := by
  intro l a v r hs
  rw [Heap.live_snoc_freed] at hs
  have hlt : a < h.length := Heap.live_lt (v := v) (by rw [hs]; simp)
  rw [List.getElem?_append_left hlt]
  exact hl l a v r hs

/-- A node that was hung behind others and is unhooked again leaves the list as
    it was, with all links, and a freed block. -/
theorem Table.Pushed.detached {t t' : Table α} {a : Nat} {v : α} (hp : t.Pushed t' a v)
    (hw : t.WF) (hne : t.live ≠ []) :
    ∃ t'', t'.detach a = .ok t'' ∧ t''.live = t.live ∧ t'' = ⟨t.heap ++ [none], t.head⟩ := by
  obtain ⟨t'', hdet, hd⟩ := hp.wf.detach_split hp.after
  have hlive : t''.live = t.live := by rw [hd.after, List.append_nil]
  have hlen : t''.heap.length = (t.heap ++ [none]).length := by
    rw [hd.length, hp.length, List.length_append, List.length_singleton]
  have hheap : t''.heap = t.heap ++ [none] :=
    (hw.linked.snoc_freed).heap_eq hd.wf.linked (hlive.trans t.heap.live_snoc_freed.symm) hlen
  have hhead : t''.head = t.head := by
    rw [show t''.head = firstPtr t''.live from hd.intact hne hp.intact, hlive]
    exact hp.before.symm
  refine ⟨t'', hdet, hlive, ?_⟩
  rw [← hheap, ← hhead]

/-- Of two assignments to a node the second one counts. -/
theorem Table.Updated.trans {t t' t'' : Table α} {l r : List (Nat × α)} {a : Nat} {v v' v'' : α}
    (h : t.Updated t' l r a v v') (h' : t'.Updated t'' l r a v' v'') :
    t.Updated t'' l r a v v'' where
  before := h.before
  after := h'.after
  wf := h'.wf
  head := h'.head.trans h.head
  intact := h'.intact.trans h.intact
  length := h'.length.trans h.length

/-- An assignment to a node leaves one table, however it was made. -/
theorem Table.Updated.unique {t t' t'' : Table α} {l r : List (Nat × α)} {a : Nat} {v v' : α}
    (h : t.Updated t' l r a v v') (h' : t.Updated t'' l r a v v') : t'' = t' := by
  have hheap : t''.heap = t'.heap := h.wf.linked.heap_eq h'.wf.linked
    (show t''.live = t'.live from h'.after.trans h.after.symm) (h'.length.trans h.length.symm)
  have hhead : t''.head = t'.head := h'.head.trans h.head.symm
  obtain ⟨heap', head'⟩ := t'
  obtain ⟨heap'', head''⟩ := t''
  obtain rfl : heap'' = heap' := hheap
  obtain rfl : head'' = head' := hhead
  rfl

end LibfsHeap
