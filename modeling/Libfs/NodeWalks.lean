import Libfs.LiveNodes

/-! # Walks, changes and new nodes

    In a well linked heap a walk from the head passes through the live nodes,
    a change of a value leaves the links, and a new node is hung behind the
    last one. -/

namespace LibfsHeap

variable {α : Type}

/-! ## Walks over well linked nodes -/

/-- A load returns the node the links describe. -/
theorem Heap.Linked.load {h : Heap α} (hl : h.Linked) {l r : List (Nat × α)} {a : Nat} {v : α}
    (hs : h.live = l ++ (a, v) :: r) : h.load a = .ok ⟨v, firstPtr r, lastPtr l⟩ := by
  unfold Heap.load
  rw [hl l a v r hs]

/-- The number of live nodes is within the budget of a walk. -/
theorem Heap.live_length_le (h : Heap α) : h.live.length ≤ h.length := by
  unfold Heap.live
  have hle := List.length_filterMap_le (fun a => (h.valAt a).map fun v => (a, v))
    (List.range h.length)
  rwa [List.length_range] at hle

/-- The links lead through the live nodes in their order. -/
theorem Heap.Linked.chain {h : Heap α} (hl : h.Linked) :
    ∀ (r l : List (Nat × α)), h.live = l ++ r → h.Chain (lastPtr l) (firstPtr r) r := by
  intro r
  induction r with
  | nil =>
      intro l _
      exact firstPtr_nil
  | cons p r ih =>
      intro l hs
      refine ⟨rfl, firstPtr r, hl l p.1 p.2 r hs, ?_⟩
      have hrest := ih (l ++ [p]) (by rw [hs, List.append_assoc]; rfl)
      rwa [lastPtr_concat] at hrest

/-- A table whose head pointer is right is a doubly linked list of its live
    nodes. -/
theorem Table.WF.chain {t : Table α} (hw : t.WF) (hi : t.Intact) :
    t.heap.Chain none t.head t.live := by
  rw [show t.head = firstPtr t.live from hi]
  exact hw.linked.chain t.live [] rfl

/-- So it lists its live nodes. -/
theorem Table.WF.lists {t : Table α} (hw : t.WF) (hi : t.Intact) : t.Lists t.live :=
  (hw.chain hi).path

/-- The walk to the last node. -/
theorem Heap.Linked.lastFrom {h : Heap α} (hl : h.Linked) :
    ∀ (r l : List (Nat × α)) (p : Nat × α) (n : Nat), h.live = l ++ p :: r →
      r.length < n → h.lastFrom n p.1 = .ok ((p :: r).getLast (List.cons_ne_nil p r)).1 := by
  intro r
  induction r with
  | nil =>
      intro l p n hs hn
      cases n with
      | zero => exact absurd hn (Nat.not_lt_zero _)
      | succ n =>
          rw [Heap.lastFrom, hl.load (v := p.2) hs]
          rfl
  | cons q r ih =>
      intro l p n hs hn
      cases n with
      | zero => exact absurd hn (Nat.not_lt_zero _)
      | succ n =>
          rw [Heap.lastFrom, hl.load (v := p.2) hs, ok_bind]
          show h.lastFrom n q.1 = _
          rw [ih (l ++ [p]) q n (by rw [hs, List.append_assoc]; rfl)
            (Nat.lt_of_succ_lt_succ hn), List.getLast_cons (List.cons_ne_nil q r)]

/-- A walk that starts at a freed node goes wrong. -/
theorem Table.find_of_dangling {t : Table α} (hd : t.Dangling) (test : α → Bool) :
    t.find test = .error .undefinedBehaviour := by
  obtain ⟨a, ha, hfree⟩ := hd
  have hlt : a < t.heap.length := (List.getElem?_eq_some_iff.mp hfree).1
  obtain ⟨n, hn⟩ : ∃ n, t.heap.length = n + 1 := ⟨t.heap.length - 1, by omega⟩
  unfold Table.find Table.findAt
  rw [ha, hn, Heap.findFrom]
  unfold Heap.load
  rw [hfree]
  rfl

/-- A walk from a dangling head pointer loads a freed node. -/
theorem Table.values_of_dangling {t : Table α} (hd : t.Dangling) :
    t.values = .error .undefinedBehaviour := by
  obtain ⟨a, ha, hfree⟩ := hd
  have hlt : a < t.heap.length := (List.getElem?_eq_some_iff.mp hfree).1
  obtain ⟨n, hn⟩ : ∃ n, t.heap.length = n + 1 := ⟨t.heap.length - 1, by omega⟩
  unfold Table.values
  rw [ha, hn, Heap.valuesFrom]
  unfold Heap.load
  rw [hfree]
  rfl

/-- Reading the whole table from an intact head pointer. -/
theorem Table.WF.values_eq {t : Table α} (hw : t.WF) (hi : t.Intact) :
    t.values = .ok (t.live.map Prod.snd) :=
  (hw.lists hi).values_eq

/-- The search loop from an intact head pointer. -/
theorem Table.WF.find_eq {t : Table α} (hw : t.WF) (hi : t.Intact) (test : α → Bool) :
    t.find test = .ok ((t.live.find? fun p => test p.2).map Prod.fst) :=
  (hw.lists hi).find_eq test

/-- A search that returned was made in an intact table. -/
theorem Table.WF.intact_of_find {t : Table α} (hw : t.WF) {test : α → Bool} {q : Ptr}
    (hf : t.find test = .ok q) : t.Intact := by
  rcases hw.headed with hi | hd
  · exact hi
  · rw [Table.find_of_dangling hd] at hf
    exact nomatch hf

/-- The node a search returned is the first one that passes the test. -/
theorem Table.WF.find_some {t : Table α} (hw : t.WF) {test : α → Bool} {a : Nat}
    (hf : t.find test = .ok (some a)) : ∃ l v r, t.Found test l r a v := by
  rw [hw.find_eq (hw.intact_of_find hf)] at hf
  obtain ⟨p, hp, ha⟩ := Option.map_eq_some_iff.mp (Except.ok.inj hf)
  obtain ⟨ht, l, r, hs, hne⟩ := List.find?_eq_some_iff_append.mp hp
  refine ⟨l, p.2, r, ?_, ht, fun q hq => ?_⟩
  · rw [← ha]
    exact hs
  · simpa using hne q hq

/-- A search that returned `NULL` has seen every node. -/
theorem Table.WF.find_none {t : Table α} (hw : t.WF) {test : α → Bool}
    (hf : t.find test = .ok none) : ∀ p ∈ t.live, test p.2 = false := by
  rw [hw.find_eq (hw.intact_of_find hf)] at hf
  intro p hp
  have hnone := Option.map_eq_none_iff.mp (Except.ok.inj hf)
  simpa using List.find?_eq_none.mp hnone p hp

/-! ## Changing one node -/

/-- The first node does not depend on what comes behind another. -/
theorem firstPtr_append_cons (m r r' : List (Nat × α)) (a : Nat) (v w : α) :
    firstPtr (m ++ (a, v) :: r) = firstPtr (m ++ (a, w) :: r') := by
  cases m with
  | nil => rfl
  | cons q m => rfl

/-- The last node does not depend on what comes before another. -/
theorem lastPtr_append_cons (l l' m : List (Nat × α)) (a : Nat) (v w : α) :
    lastPtr (l ++ (a, v) :: m) = lastPtr (l' ++ (a, w) :: m) := by
  cases m using List.reverseRecOn with
  | nil => simp
  | append_singleton m q _ =>
      rw [← List.cons_append, ← List.append_assoc, lastPtr_concat,
        ← List.cons_append, ← List.append_assoc, lastPtr_concat]

/-- The values after one block was set. -/
theorem Heap.valAt_set {h : Heap α} {a : Nat} (hlt : a < h.length) (o : Option (Cell α))
    (b : Nat) :
    Heap.valAt (h.set a o) b = if b = a then o.map Cell.val else h.valAt b := by
  unfold Heap.valAt
  rw [List.getElem?_set]
  by_cases hba : b = a
  · subst hba
    rw [if_pos rfl, if_pos hlt, if_pos rfl]
    cases o with
    | none => rfl
    | some c => rfl
  · rw [if_neg (fun e => hba e.symm), if_neg hba]

/-- `put` replaces the value of one node. -/
theorem Table.WF.put_split {t : Table α} (hw : t.WF) {l r : List (Nat × α)} {a : Nat} {v : α}
    (hs : t.live = l ++ (a, v) :: r) (v' : α) :
    ∃ t', t.put a v' = .ok t' ∧ t.Updated t' l r a v v' := by
  have hcell := hw.linked l a v r hs
  have hlt : a < t.heap.length := (List.getElem?_eq_some_iff.mp hcell).1
  refine ⟨⟨t.heap.set a (some ⟨v', firstPtr r, lastPtr l⟩), t.head⟩, ?_, ?_⟩
  · unfold Table.put
    rw [hw.linked.load hs]
    rfl
  have hlive : Heap.live (t.heap.set a (some ⟨v', firstPtr r, lastPtr l⟩))
      = l ++ (a, v') :: r := by
    rw [Heap.live_update (some v') hs (by rw [List.length_set]) (fun b => ?_)]
    · simp
    · rw [Heap.valAt_set hlt]
      rfl
  have hfirst : firstPtr (l ++ (a, v') :: r) = firstPtr (l ++ (a, v) :: r) :=
    firstPtr_append_cons l r r a v' v
  have hint : Table.Intact ⟨t.heap.set a (some ⟨v', firstPtr r, lastPtr l⟩), t.head⟩
      ↔ t.Intact := by
    show t.head = firstPtr (Heap.live (t.heap.set a _)) ↔ t.head = firstPtr t.live
    rw [hlive, hs, hfirst]
  refine ⟨hs, hlive, ⟨?_, ?_⟩, rfl, hint, by rw [List.length_set]⟩
  · intro l' b w r' hs'
    rw [hlive] at hs'
    rcases split_cases hs'.symm with ⟨m, rfl, rfl⟩ | ⟨rfl, hbw, rfl⟩ | ⟨m, rfl, rfl⟩
    · have hne : b ≠ a := (Heap.live_split_ne hs).2 (b, w) (by simp)
      have hold := hw.linked (l ++ (a, v) :: m) b w r' (hs.trans (by simp))
      rw [List.getElem?_set_ne (fun e => hne e.symm), hold,
        lastPtr_append_cons l l m a v v']
    · cases hbw
      rw [List.getElem?_set_self hlt]
    · have hne : b ≠ a := (Heap.live_split_ne hs).1 (b, w) (by simp)
      have hold := hw.linked l' b w (m ++ (a, v) :: r) (hs.trans (by simp))
      rw [List.getElem?_set_ne (fun e => hne e.symm), hold,
        firstPtr_append_cons m r r a v v']
  · rcases hw.headed with hi | ⟨b, hb, hfree⟩
    · exact Or.inl (hint.mpr hi)
    · refine Or.inr ⟨b, hb, ?_⟩
      have hne : a ≠ b := by
        rintro rfl
        rw [hfree] at hcell
        exact nomatch hcell
      rw [List.getElem?_set_ne hne]
      exact hfree

/-! ## Hanging a node behind the last one -/

/-- The links of a list that grew by one node. -/
theorem Heap.linked_snoc {h h' : Heap α} {xs : List (Nat × α)} {n : Nat} {v : α}
    (hl : h.Linked) (hs : h.live = xs) (hs' : h'.live = xs ++ [(n, v)])
    (hnew : h'[n]? = some (some ⟨v, none, lastPtr xs⟩))
    (hlast : ∀ l a w, xs = l ++ [(a, w)] → h'[a]? = some (some ⟨w, some n, lastPtr l⟩))
    (hsame : ∀ l a w q r, xs = l ++ (a, w) :: q :: r → h'[a]? = h[a]?) : h'.Linked := by
  intro l a w r hsplit
  rw [hs'] at hsplit
  rcases split_cases hsplit.symm with ⟨m, hl', hr'⟩ | ⟨rfl, hnw, rfl⟩ | ⟨m, hxs, rfl⟩
  · simp at hr'
  · cases hnw
    exact hnew
  · cases m with
    | nil =>
        rw [hlast l a w hxs]
        rfl
    | cons q m =>
        rw [hsame l a w q m hxs, hl l a w (q :: m) (hs.trans hxs)]
        rfl

/-- The list from the head of a table ends at its last node. -/
theorem Table.WF.lastFrom_head {t : Table α} (hw : t.WF) (hi : t.Intact) {xs : List (Nat × α)}
    {b : Nat} {w : α} (hs : t.live = xs ++ [(b, w)]) :
    ∃ first, t.head = some first ∧ t.heap.lastFrom t.heap.length first = .ok b := by
  obtain ⟨p, r, hcons⟩ : ∃ p r, t.live = p :: r := by
    refine List.exists_cons_of_ne_nil fun hnil => ?_
    rw [hs] at hnil
    exact List.append_ne_nil_of_right_ne_nil xs (List.cons_ne_nil _ _) hnil
  have hlen : r.length < t.heap.length := by
    have hle := t.heap.live_length_le
    rw [show t.heap.live = p :: r from hcons, List.length_cons] at hle
    exact hle
  refine ⟨p.1, ?_, ?_⟩
  · rw [show t.head = firstPtr t.live from hi, hcons]
    rfl
  · rw [hw.linked.lastFrom r [] p t.heap.length hcons hlen]
    have hlast : (p :: r).getLast? = some (b, w) := by
      rw [← hcons, hs, List.getLast?_concat]
    rw [List.getLast?_eq_some_getLast (List.cons_ne_nil p r)] at hlast
    rw [Option.some.inj hlast]

/-- `h` with a new node of value `v` behind the node at `b`, the last one. -/
def Heap.hang (h : Heap α) (xs : List (Nat × α)) (b : Nat) (w v : α) : Heap α :=
  List.set (h ++ [some ⟨v, none, some b⟩]) b (some ⟨w, some h.length, lastPtr xs⟩)

section Hang

variable {h : Heap α} {xs : List (Nat × α)} {b : Nat} {w : α}

/-- The new node is the last of the live ones. -/
theorem Heap.hang_live (hs : h.live = xs ++ [(b, w)]) (v : α) :
    (h.hang xs b w v).live = xs ++ [(b, w)] ++ [(h.length, v)] := by
  have hlive : Heap.live (h ++ [some ⟨v, none, some b⟩]) = xs ++ (b, w) :: [(h.length, v)] := by
    have happend := Heap.live_append h ⟨v, none, some b⟩
    rw [hs, List.append_assoc] at happend
    exact happend
  have hlt : b < (h ++ [some (Cell.mk v none (some b))]).length := by
    rw [List.length_append]
    exact Nat.lt_add_right _ (Heap.live_lt (v := w) (by rw [hs]; simp))
  unfold Heap.hang
  rw [Heap.live_update (some w) hlive (by rw [List.length_set]) (fun c => ?_)]
  · simp
  · rw [Heap.valAt_set hlt]
    rfl

/-- A node hung behind the last one is linked to it. -/
theorem Heap.Linked.hang (hl : h.Linked) (hs : h.live = xs ++ [(b, w)]) (v : α) :
    (h.hang xs b w v).Linked := by
  have hlt : b < h.length := Heap.live_lt (v := w) (by rw [hs]; simp)
  have hlt₁ : b < (h ++ [some (Cell.mk v none (some b))]).length := by
    rw [List.length_append]
    exact Nat.lt_add_right _ hlt
  refine Heap.linked_snoc hl hs (Heap.hang_live hs v) ?_ ?_ ?_
  · unfold Heap.hang
    rw [List.getElem?_set_ne (Nat.ne_of_lt hlt), lastPtr_concat, List.getElem?_concat_length]
  · intro l a w' he
    obtain ⟨rfl, hab⟩ := List.append_inj' he rfl
    cases hab
    exact List.getElem?_set_self hlt₁
  · -- a node that is not the last one keeps its cell
    intro l a w' q r he
    have hcut : h.live = l ++ (a, w') :: q :: r := hs.trans he
    have hne : a ≠ b := by
      refine fun e => (Heap.live_split_ne hcut).2 (b, w) ?_ e.symm
      have hmem : (xs ++ [(b, w)]).getLast? = (l ++ (a, w') :: q :: r).getLast? := by rw [he]
      rw [List.getLast?_concat, List.getLast?_append_cons, List.getLast?_cons_cons] at hmem
      exact List.mem_of_getLast? hmem.symm
    have hlta : a < h.length := Heap.live_lt (v := w') (by rw [hcut]; simp)
    unfold Heap.hang
    rw [List.getElem?_set_ne (fun e => hne e.symm), List.getElem?_append_left hlta]

/-- The two steps that hang a node behind another. -/
theorem Heap.Linked.setNext_hang (hl : h.Linked) (hs : h.live = xs ++ [(b, w)]) (v : α) :
    Heap.setNext (h ++ [some ⟨v, none, some b⟩]) b (some h.length) = .ok (h.hang xs b w v) := by
  have hcell := hl xs b w [] hs
  have hlt : b < h.length := (List.getElem?_eq_some_iff.mp hcell).1
  have hload : Heap.load (h ++ [some ⟨v, none, some b⟩]) b = .ok ⟨w, none, lastPtr xs⟩ := by
    rw [Heap.load_ok, List.getElem?_append_left hlt]
    exact hcell
  unfold Heap.setNext
  rw [hload]
  rfl

end Hang

/-- The first node of a table. -/
theorem Table.pushBack_first {t : Table α} (hw : t.WF) (hi : t.Intact) (hs : t.live = [])
    (mk : Option α → α) :
    ∃ t', t.pushBack mk = .ok (t.heap.length, t') ∧ t.Pushed t' t.heap.length (mk none) := by
  have hhead : t.head = none := by
    rw [show t.head = firstPtr t.live from hi, hs]
    rfl
  have hlive := Heap.live_append t.heap ⟨mk none, none, none⟩
  rw [show t.heap.live = [] from hs] at hlive
  have hintact : Table.Intact ⟨t.heap ++ [some ⟨mk none, none, none⟩], some t.heap.length⟩ := by
    show some t.heap.length = firstPtr (Heap.live _)
    rw [hlive]
    rfl
  unfold Table.pushBack
  rw [hhead]
  refine ⟨_, rfl, rfl, hi, by rw [hs]; exact hlive, ⟨?_, Or.inl hintact⟩, hintact, by simp⟩
  refine Heap.linked_snoc hw.linked hs hlive (by simp) ?_ ?_
  · intro l a w he
    simp at he
  · intro l a w q r he
    simp at he

/-- `pushBack` adds one node behind all others, at an address not used
    before. -/
theorem Table.WF.pushBack_eq {t : Table α} (hw : t.WF) (hi : t.Intact) (mk : Option α → α) :
    ∃ t', t.pushBack mk = .ok (t.heap.length, t') ∧
      t.Pushed t' t.heap.length (mk (t.live.getLast?.map Prod.snd)) := by
  cases hxs : t.live using List.reverseRecOn with
  | nil => exact Table.pushBack_first hw hi hxs mk
  | append_singleton xs p =>
      obtain ⟨b, w⟩ := p
      obtain ⟨first, hhead, hlast⟩ := hw.lastFrom_head hi hxs
      have hlive := Heap.hang_live hxs (mk (some w))
      have hintact : Table.Intact ⟨t.heap.hang xs b w (mk (some w)), t.head⟩ := by
        show t.head = firstPtr (Heap.live _)
        rw [hlive, List.append_assoc, show t.head = firstPtr t.live from hi, hxs]
        exact firstPtr_append_cons xs [] [(t.heap.length, mk (some w))] b w w
      have hlen : (t.heap.hang xs b w (mk (some w))).length = t.heap.length + 1 := by
        unfold Heap.hang
        rw [List.length_set, List.length_append, List.length_singleton]
      rw [List.getLast?_concat]
      refine ⟨⟨t.heap.hang xs b w (mk (some w)), t.head⟩, ?_, rfl, hi, by rw [hxs]; exact hlive,
        ⟨hw.linked.hang hxs (mk (some w)), Or.inl hintact⟩, hintact, hlen⟩
      unfold Table.pushBack
      rw [hhead]
      show (t.heap.lastFrom t.heap.length first >>= _) = _
      rw [hlast, ok_bind, hw.linked.load hxs, ok_bind]
      show (Heap.setNext (t.heap ++ [some ⟨mk (some w), none, some b⟩]) b (some t.heap.length)
        >>= _) = _
      rw [hw.linked.setNext_hang hxs]
      rfl

/-- What a `pushBack` that returned has done. -/
theorem Table.WF.pushBack_ok {t t' : Table α} (hw : t.WF) {mk : Option α → α} {a : Nat}
    (hp : t.pushBack mk = .ok (a, t')) :
    t.Pushed t' a (mk (t.live.getLast?.map Prod.snd)) := by
  rcases hw.headed with hi | ⟨b, hb, hfree⟩
  · obtain ⟨t₁, he, hpush⟩ := hw.pushBack_eq hi mk
    rw [he] at hp
    obtain ⟨rfl, rfl⟩ := Prod.mk.inj (Except.ok.inj hp)
    exact hpush
  · exfalso
    have hlt : b < t.heap.length := (List.getElem?_eq_some_iff.mp hfree).1
    obtain ⟨n, hn⟩ : ∃ n, t.heap.length = n + 1 := ⟨t.heap.length - 1, by omega⟩
    unfold Table.pushBack at hp
    rw [hb, hn] at hp
    have hlast : t.heap.lastFrom (n + 1) b = .error .undefinedBehaviour := by
      unfold Heap.lastFrom Heap.load
      rw [hfree]
      rfl
    change (t.heap.lastFrom (n + 1) b >>= _) = _ at hp
    rw [hlast] at hp
    exact nomatch hp

end LibfsHeap
