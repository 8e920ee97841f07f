import Libfs.CHeap
import Mathlib.Data.List.Nodup
import Mathlib.Data.List.Perm.Subperm

/-! # Lists as the search loops follow them

    A search goes from the head along the `next` pointers and never looks at
    `prev` or at the blocks that are not on its way.  What it needs is that
    this way ends: the nodes on it are then the table, whatever else the heap
    holds. -/

namespace LibfsHeap

variable {α : Type}

/-- Followed from `p` on, the `next` pointers lead through these nodes to
    `NULL`. -/
def Heap.Path (h : Heap α) : Ptr → List (Nat × α) → Prop
  | p, [] => p = none
  | p, (a, v) :: rest =>
      p = some a ∧ ∃ next prev, h[a]? = some (some ⟨v, next, prev⟩) ∧ h.Path next rest

/-- The entries of a table, first one first. -/
def Table.Lists (t : Table α) (xs : List (Nat × α)) : Prop := t.heap.Path t.head xs

/-- Followed from `p` on, where `before` is the node in front, the links lead
    through these nodes to `NULL`, and every node's `prev` goes back to the node
    it was reached from. -/
def Heap.Chain (h : Heap α) : Ptr → Ptr → List (Nat × α) → Prop
  | _, p, [] => p = none
  | before, p, (a, v) :: rest =>
      p = some a ∧ ∃ next, h[a]? = some (some ⟨v, next, before⟩) ∧ h.Chain (some a) next rest

/-- A doubly linked list is one that can be followed. -/
theorem Heap.Chain.path {h : Heap α} : ∀ {xs : List (Nat × α)} {before p : Ptr},
    h.Chain before p xs → h.Path p xs := by
  intro xs
  induction xs with
  | nil =>
      intro before p hc
      exact hc
  | cons q xs ih =>
      intro before p hc
      obtain ⟨hp, next, hcell, hrest⟩ := hc
      exact ⟨hp, next, before, hcell, ih hrest⟩

theorem Heap.load_ok {h : Heap α} {a : Nat} {c : Cell α} :
    h.load a = .ok c ↔ h[a]? = some (some c) := by
  unfold Heap.load
  split
  · next d hd => simp [hd]
  · next hne =>
      constructor
      · intro h'
        exact nomatch h'
      · intro h'
        exact absurd h' (hne c)

/-! ## No node is met twice -/

/-- A pointer leads through one list of nodes. -/
theorem Heap.Path.unique {h : Heap α} : ∀ {xs ys : List (Nat × α)} {p : Ptr},
    h.Path p xs → h.Path p ys → ys = xs := by
  intro xs
  induction xs with
  | nil =>
      intro ys p hx hy
      cases ys with
      | nil => rfl
      | cons q ys => exact absurd ((hx : p = none).symm.trans hy.1) (by simp)
  | cons q xs ih =>
      intro ys p hx hy
      obtain ⟨hp, next, prev, hcell, hrest⟩ := hx
      cases ys with
      | nil => exact absurd ((hy : p = none).symm.trans hp) (by simp)
      | cons q' ys =>
          obtain ⟨hp', next', prev', hcell', hrest'⟩ := hy
          have haddr : q'.1 = q.1 := Option.some.inj (hp'.symm.trans hp)
          rw [haddr, hcell] at hcell'
          have hnode := Option.some.inj (Option.some.inj hcell')
          have hval : q'.2 = q.2 := (congrArg Cell.val hnode).symm
          have hnext : next' = next := (congrArg Cell.next hnode).symm
          rw [hnext] at hrest'
          rw [ih hrest hrest', Prod.ext haddr hval]

/-- The rest of a list is the list from there on. -/
theorem Heap.Path.suffix {h : Heap α} {q : Nat × α} {r : List (Nat × α)} :
    ∀ {l : List (Nat × α)} {p : Ptr}, h.Path p (l ++ q :: r) → h.Path (some q.1) (q :: r) := by
  intro l
  induction l with
  | nil =>
      intro p hp
      rw [List.nil_append] at hp
      rwa [hp.1] at hp
  | cons q' l ih =>
      intro p hp
      obtain ⟨-, next, prev, -, hrest⟩ := hp
      exact ih hrest

/-- A list that comes back to a node never ends. -/
theorem Heap.Path.nodup {h : Heap α} : ∀ {xs : List (Nat × α)} {p : Ptr},
    h.Path p xs → (xs.map Prod.fst).Nodup := by
  intro xs
  induction xs with
  | nil => exact fun _ => List.nodup_nil
  | cons q xs ih =>
      intro p hp
      have htail := hp
      obtain ⟨rfl, next, prev, -, hrest⟩ := hp
      rw [List.map_cons, List.nodup_cons]
      refine ⟨?_, ih hrest⟩
      rw [List.mem_map]
      rintro ⟨q', hq', haddr⟩
      obtain ⟨l, r, rfl⟩ := List.append_of_mem hq'
      -- both the whole list and its rest from `q'` start at the same address
      have hback := hrest.suffix
      rw [haddr] at hback
      have hlen := congrArg List.length (htail.unique hback)
      simp only [List.length_cons, List.length_append] at hlen
      omega

theorem Heap.Path.lt {h : Heap α} : ∀ {xs : List (Nat × α)} {p : Ptr}, h.Path p xs →
    ∀ a ∈ xs.map Prod.fst, a < h.length := by
  intro xs
  induction xs with
  | nil => exact fun _ a ha => absurd ha List.not_mem_nil
  | cons q xs ih =>
      intro p hp a ha
      obtain ⟨-, next, prev, hcell, hrest⟩ := hp
      rcases List.mem_cons.mp ha with rfl | ha
      · exact (List.getElem?_eq_some_iff.mp hcell).1
      · exact ih hrest a ha

/-- The number of entries is within the budget of a walk. -/
theorem Heap.Path.length_le {h : Heap α} {xs : List (Nat × α)} {p : Ptr} (hp : h.Path p xs) :
    xs.length ≤ h.length := by
  have hsub : xs.map Prod.fst ⊆ List.range h.length :=
    fun a ha => List.mem_range.mpr (hp.lt a ha)
  have hle := (List.subperm_of_subset hp.nodup hsub).length_le
  rwa [List.length_map, List.length_range] at hle

/-! ## Searching and assigning -/

theorem Heap.Path.findFrom {h : Heap α} (test : α → Bool) :
    ∀ {xs : List (Nat × α)} {p : Ptr} {n : Nat}, h.Path p xs → xs.length ≤ n →
      h.findFrom test n p = .ok ((xs.find? fun q => test q.2).map Prod.fst) := by
  intro xs
  induction xs with
  | nil =>
      intro p n hp _
      rw [show p = none from hp, Heap.findFrom.eq_1]
      rfl
  | cons q xs ih =>
      intro p n hp hn
      obtain ⟨rfl, next, prev, hcell, hrest⟩ := hp
      cases n with
      | zero => exact absurd hn (Nat.not_succ_le_zero _)
      | succ n =>
          rw [Heap.findFrom, Heap.load_ok.mpr hcell, ok_bind]
          by_cases ht : test q.2 = true
          · rw [if_pos ht, List.find?_cons_of_pos (p := fun q : Nat × α => test q.2) ht]
            rfl
          · rw [if_neg ht, List.find?_cons_of_neg (p := fun q : Nat × α => test q.2) ht]
            exact ih hrest (Nat.le_of_succ_le_succ hn)

/-- The search loop finds the first entry that passes the test. -/
theorem Table.Lists.find_eq {t : Table α} {xs : List (Nat × α)} (hl : t.Lists xs)
    (test : α → Bool) : t.find test = .ok ((xs.find? fun q => test q.2).map Prod.fst) :=
  Heap.Path.findFrom test hl hl.length_le

/-- The walk that collects the values. -/
theorem Heap.Path.valuesFrom {h : Heap α} :
    ∀ {xs : List (Nat × α)} {p : Ptr} {n : Nat}, h.Path p xs → xs.length ≤ n →
      h.valuesFrom n p = .ok (xs.map Prod.snd) := by
  intro xs
  induction xs with
  | nil =>
      intro p n hp _
      rw [show p = none from hp, Heap.valuesFrom.eq_1]
      rfl
  | cons q xs ih =>
      intro p n hp hn
      obtain ⟨rfl, next, prev, hcell, hrest⟩ := hp
      cases n with
      | zero => exact absurd hn (Nat.not_succ_le_zero _)
      | succ n =>
          rw [Heap.valuesFrom, Heap.load_ok.mpr hcell, ok_bind]
          show (h.valuesFrom n next >>= fun vs => Except.ok (q.2 :: vs)) = _
          rw [ih hrest (Nat.le_of_succ_le_succ hn)]
          rfl

theorem Table.Lists.values_eq {t : Table α} {xs : List (Nat × α)} (hl : t.Lists xs) :
    t.values = .ok (xs.map Prod.snd) :=
  Heap.Path.valuesFrom hl hl.length_le

/-- A list does not see the blocks it does not go through. -/
theorem Heap.Path.congr {h h' : Heap α} : ∀ {xs : List (Nat × α)} {p : Ptr},
    (∀ a ∈ xs.map Prod.fst, h'[a]? = h[a]?) → h.Path p xs → h'.Path p xs := by
  intro xs
  induction xs with
  | nil => exact fun _ hp => hp
  | cons q xs ih =>
      intro p hsame hp
      obtain ⟨hp, next, prev, hcell, hrest⟩ := hp
      refine ⟨hp, next, prev, ?_, ih (fun a ha => hsame a (List.mem_cons_of_mem _ ha)) hrest⟩
      rw [hsame q.1 (List.mem_cons_self ..), hcell]

/-- Assigning to the value of a node changes that entry of the list. -/
theorem Heap.Path.set {h : Heap α} {a : Nat} {v v' : α} {next prev : Ptr} {r : List (Nat × α)}
    (hcell : h[a]? = some (some ⟨v, next, prev⟩)) : ∀ {l : List (Nat × α)} {p : Ptr},
    h.Path p (l ++ (a, v) :: r) →
      Heap.Path (h.set a (some ⟨v', next, prev⟩)) p (l ++ (a, v') :: r) := by
  have hlt : a < h.length := (List.getElem?_eq_some_iff.mp hcell).1
  intro l
  induction l with
  | nil =>
      intro p hp
      rw [List.nil_append] at hp ⊢
      have hfresh := (List.nodup_cons.mp hp.nodup).1
      obtain ⟨hp, next₁, prev₁, hcell₁, hrest⟩ := hp
      obtain ⟨rfl, rfl⟩ : next₁ = next ∧ prev₁ = prev := by
        have hnode := hcell₁.symm.trans hcell
        exact ⟨congrArg Cell.next (Option.some.inj (Option.some.inj hnode)),
          congrArg Cell.prev (Option.some.inj (Option.some.inj hnode))⟩
      refine ⟨hp, next₁, prev₁, List.getElem?_set_self hlt, hrest.congr fun b hb => ?_⟩
      refine List.getElem?_set_ne ?_
      rintro rfl
      exact hfresh hb
  | cons q l ih =>
      intro p hp
      have hne : a ≠ q.1 := by
        rintro rfl
        exact (List.nodup_cons.mp hp.nodup).1
          (List.mem_map.mpr ⟨(q.1, v), List.mem_append_right l (List.mem_cons_self ..), rfl⟩)
      obtain ⟨hp, next₁, prev₁, hcell₁, hrest⟩ := hp
      exact ⟨hp, next₁, prev₁, (List.getElem?_set_ne hne).trans hcell₁, ih hrest⟩

/-- What an assignment to an entry of a table leaves, and how it is undone. -/
theorem Table.Lists.put_eq {t : Table α} {l r : List (Nat × α)} {a : Nat} {v : α}
    (hl : t.Lists (l ++ (a, v) :: r)) (v' : α) :
    t.get a = .ok v ∧ ∃ t', t.put a v' = .ok t' ∧ t'.Lists (l ++ (a, v') :: r) ∧
      t'.put a v = .ok t := by
  obtain ⟨-, next, prev, hcell, -⟩ := Heap.Path.suffix hl
  have hload := Heap.load_ok.mpr hcell
  have hlt : a < t.heap.length := (List.getElem?_eq_some_iff.mp hcell).1
  refine ⟨?_, { t with heap := t.heap.set a (some ⟨v', next, prev⟩) }, ?_, ?_, ?_⟩
  · unfold Table.get
    rw [hload]
    rfl
  · unfold Table.put
    rw [hload]
    rfl
  · exact Heap.Path.set hcell hl
  · have hset : (t.heap.set a (some ⟨v', next, prev⟩))[a]? = some (some ⟨v', next, prev⟩) :=
      List.getElem?_set_self hlt
    unfold Table.put
    rw [Heap.load_ok.mpr hset, ok_bind, List.set_set]
    have hsame : t.heap.set a (some ⟨v, next, prev⟩) = t.heap := by
      refine List.ext_getElem? fun b => ?_
      by_cases hb : a = b
      · rw [← hb, List.getElem?_set_self hlt, hcell]
      · rw [List.getElem?_set_ne hb]
    rw [hsame]

end LibfsHeap
