import Libfs.NodeWalks

/-! # Nodes that are taken out

    `remove` and `detach` link the neighbours of a node to each other and free
    it.  The head pointer follows only in `remove`: after `detach` of the first
    node it dangles. -/

namespace LibfsHeap

variable {α : Type}

/-! ## Unhooking a node -/

/-- The heap after the node between `l` and `r` is unhooked and freed. -/
structure Unhooked (h h' : Heap α) (l r : List (Nat × α)) (a : Nat) : Prop where
  length : h'.length = h.length
  freed : h'[a]? = some none
  before : ∀ m b w, l = m ++ [(b, w)] → h'[b]? = some (some ⟨w, firstPtr r, lastPtr m⟩)
  behind : ∀ b w m, r = (b, w) :: m → h'[b]? = some (some ⟨w, firstPtr m, lastPtr l⟩)
  others : ∀ b, b ≠ a → some b ≠ lastPtr l → some b ≠ firstPtr r → h'[b]? = h[b]?

/-- The address of the last node of a part of the list. -/
theorem lastPtr_eq_some {xs : List (Nat × α)} {b : Nat} (h : lastPtr xs = some b) :
    ∃ m w, xs = m ++ [(b, w)] := by
  cases xs using List.reverseRecOn with
  | nil => exact nomatch h
  | append_singleton m p =>
      rw [lastPtr_concat] at h
      exact ⟨m, p.2, by rw [← Option.some.inj h]⟩

/-- Unhooking drops exactly that node from the list of live nodes. -/
theorem Unhooked.live_eq {h h' : Heap α} {l r : List (Nat × α)} {a : Nat} {v : α}
    (hl : h.Linked) (hs : h.live = l ++ (a, v) :: r) (hu : Unhooked h h' l r a) :
    h'.live = l ++ r := by
  have hval : ∀ b, h'.valAt b = if b = a then none else h.valAt b := by
    intro b
    by_cases hba : b = a
    · rw [if_pos hba, hba]
      unfold Heap.valAt
      rw [hu.freed]
    rw [if_neg hba]
    by_cases hp : some b = lastPtr l
    · obtain ⟨m, w, rfl⟩ := lastPtr_eq_some hp.symm
      have hold := hl m b w ((a, v) :: r) (hs.trans (by simp))
      unfold Heap.valAt
      rw [hold, hu.before m b w rfl]
    by_cases hn : some b = firstPtr r
    · obtain ⟨w, m, rfl⟩ := firstPtr_mem hn.symm
      have hold := hl (l ++ [(a, v)]) b w m (hs.trans (by simp))
      unfold Heap.valAt
      rw [hold, hu.behind b w m rfl]
    · unfold Heap.valAt
      rw [hu.others b hba hp hn]
  rw [Heap.live_update none hs hu.length hval]
  simp

/-- Unhooking keeps the other links right. -/
theorem Unhooked.linked {h h' : Heap α} {l r : List (Nat × α)} {a : Nat} {v : α}
    (hl : h.Linked) (hs : h.live = l ++ (a, v) :: r) (hu : Unhooked h h' l r a) :
    h'.Linked := by
  obtain ⟨hnel, hner⟩ := Heap.live_split_ne hs
  intro l' b w r' hsplit
  rw [hu.live_eq hl hs] at hsplit
  -- the node in question stands before or behind the gap
  have hcut : (∃ m, l = l' ++ (b, w) :: m ∧ r' = m ++ r) ∨
      (∃ m, l' = l ++ m ∧ r = m ++ (b, w) :: r') := by
    rcases List.append_eq_append_iff.mp hsplit with ⟨m, hl', hr'⟩ | ⟨m, hl', hr'⟩
    · exact Or.inr ⟨m, hl', hr'⟩
    · cases m with
      | nil =>
          refine Or.inr ⟨[], ?_, ?_⟩
          · rw [hl', List.append_nil, List.append_nil]
          · exact hr'.symm
      | cons q m =>
          obtain ⟨hq, hr''⟩ := List.cons.inj hr'
          exact Or.inl ⟨m, by rw [hl', hq], hr''⟩
  rcases hcut with ⟨m, rfl, rfl⟩ | ⟨m, rfl, rfl⟩
  · have hold := hl l' b w (m ++ (a, v) :: r) (hs.trans (by simp))
    cases m with
    | nil =>
        rw [hu.before l' b w rfl]
        rfl
    | cons q m =>
        have hsort := h.live_sorted
        rw [hs, List.append_assoc] at hsort
        have hbq := List.pairwise_cons.mp (List.pairwise_append.mp hsort).2.1
        rw [hu.others b (hnel (b, w) (by simp)) ?_ ?_, hold]
        · rfl
        · intro he
          obtain ⟨m', w', hm'⟩ := lastPtr_eq_some he.symm
          have hmem : (b, w') ∈ q :: m := by
            have hgl : (l' ++ (b, w) :: q :: m).getLast? = some (b, w') := by rw [hm']; simp
            rw [List.getLast?_append_cons, List.getLast?_cons_cons] at hgl
            exact List.mem_of_getLast? hgl
          exact Nat.lt_irrefl _ (hbq.1 (b, w') (List.mem_append_left _ hmem))
        · intro he
          obtain ⟨w', m', hm'⟩ := firstPtr_mem he.symm
          exact Nat.lt_irrefl _ (hbq.1 (b, w') (by rw [hm']; simp))
  · have hold := hl (l ++ (a, v) :: m) b w r' (hs.trans (by simp))
    cases m using List.reverseRecOn with
    | nil =>
        rw [hu.behind b w r' rfl, List.append_nil]
    | append_singleton m q =>
        have hsort := h.live_sorted
        rw [hs] at hsort
        have hparts := List.pairwise_append.mp hsort
        have htail := (List.pairwise_cons.mp hparts.2.1).2
        have hbm := (List.pairwise_append.mp htail).2.2
        rw [hu.others b (hner (b, w) (by simp)) ?_ ?_, hold]
        · congr 3
          rw [← List.append_assoc, lastPtr_concat, ← List.cons_append, ← List.append_assoc,
            lastPtr_concat]
        · intro he
          obtain ⟨m', w', hm'⟩ := lastPtr_eq_some he.symm
          have hlt := hparts.2.2 (b, w') (by rw [hm']; simp) (b, w) (by simp)
          exact Nat.lt_irrefl _ hlt
        · intro he
          obtain ⟨w', m', hm'⟩ := firstPtr_mem he.symm
          cases m with
          | nil =>
              have hq : (b, w') = q := by
                have := (List.cons.inj hm').1
                exact this.symm
              exact Nat.lt_irrefl _ (hbm (b, w') (by simp [hq]) (b, w) (by simp))
          | cons q' m =>
              have hq : (b, w') = q' := by
                have := (List.cons.inj hm').1
                exact this.symm
              exact Nat.lt_irrefl _ (hbm (b, w') (by simp [hq]) (b, w) (by simp))

/-- `h` with the node before the gap pointing across it. -/
def Heap.relinkBefore (h : Heap α) (l r : List (Nat × α)) : Heap α :=
  match l.getLast? with
  | some (b, w) => h.set b (some ⟨w, firstPtr r, lastPtr l.dropLast⟩)
  | none => h

/-- `h` with the node behind the gap pointing back across it. -/
def Heap.relinkBehind (h : Heap α) (l r : List (Nat × α)) : Heap α :=
  match r with
  | (b, w) :: k => h.set b (some ⟨w, firstPtr k, lastPtr l⟩)
  | [] => h

/-- `h` with the node between `l` and `r` unhooked and freed. -/
def Heap.unhook (h : Heap α) (l r : List (Nat × α)) (a : Nat) : Heap α :=
  ((h.relinkBefore l r).relinkBehind l r).set a none

@[simp] theorem Heap.relinkBefore_nil (h : Heap α) (r : List (Nat × α)) :
    h.relinkBefore [] r = h := rfl

@[simp] theorem Heap.relinkBefore_concat (h : Heap α) (m r : List (Nat × α)) (b : Nat) (w : α) :
    h.relinkBefore (m ++ [(b, w)]) r = h.set b (some ⟨w, firstPtr r, lastPtr m⟩) := by
  unfold Heap.relinkBefore
  rw [List.getLast?_concat, List.dropLast_concat]

@[simp] theorem Heap.relinkBehind_nil (h : Heap α) (l : List (Nat × α)) :
    h.relinkBehind l [] = h := rfl

@[simp] theorem Heap.relinkBehind_cons (h : Heap α) (l k : List (Nat × α)) (b : Nat) (w : α) :
    h.relinkBehind l ((b, w) :: k) = h.set b (some ⟨w, firstPtr k, lastPtr l⟩) := rfl

/-- No block is added on the left. -/
theorem Heap.relinkBefore_length (h : Heap α) (l r : List (Nat × α)) :
    (h.relinkBefore l r).length = h.length := by
  cases l using List.reverseRecOn with
  | nil => rfl
  | append_singleton m p => rw [Heap.relinkBefore_concat, List.length_set]

/-- No block is added on the right. -/
theorem Heap.relinkBehind_length (h : Heap α) (l r : List (Nat × α)) :
    (h.relinkBehind l r).length = h.length := by
  cases r with
  | nil => rfl
  | cons p k => rw [Heap.relinkBehind_cons, List.length_set]

/-- Only the left neighbour changes. -/
theorem Heap.relinkBefore_other (h : Heap α) (l r : List (Nat × α)) {b : Nat}
    (hb : some b ≠ lastPtr l) : (h.relinkBefore l r)[b]? = h[b]? := by
  cases l using List.reverseRecOn with
  | nil => rfl
  | append_singleton m p =>
      rw [lastPtr_concat] at hb
      rw [Heap.relinkBefore_concat, List.getElem?_set_ne (fun e => hb (by rw [e]))]

/-- Only the right neighbour changes. -/
theorem Heap.relinkBehind_other (h : Heap α) (l r : List (Nat × α)) {b : Nat}
    (hb : some b ≠ firstPtr r) : (h.relinkBehind l r)[b]? = h[b]? := by
  cases r with
  | nil => rfl
  | cons p k =>
      rw [firstPtr_cons] at hb
      rw [Heap.relinkBehind_cons, List.getElem?_set_ne (fun e => hb (by rw [e]))]

/-- The nodes on the two sides of a gap are different. -/
theorem Heap.lastPtr_ne_firstPtr {h : Heap α} {l r : List (Nat × α)} {a : Nat} {v : α}
    (hs : h.live = l ++ (a, v) :: r) {b : Nat} (hb : some b = lastPtr l) :
    some b ≠ firstPtr r := by
  intro hf
  obtain ⟨m, w, rfl⟩ := lastPtr_eq_some hb.symm
  obtain ⟨x, k, rfl⟩ := firstPtr_mem hf.symm
  have hsort := h.live_sorted
  rw [hs] at hsort
  exact Nat.lt_irrefl _ ((List.pairwise_append.mp hsort).2.2 (b, w) (by simp) (b, x) (by simp))

/-- `unhook` is what its name says. -/
theorem Heap.unhooked {h : Heap α} {l r : List (Nat × α)} {a : Nat} {v : α}
    (hs : h.live = l ++ (a, v) :: r) : Unhooked h (h.unhook l r a) l r a := by
  obtain ⟨hnel, hner⟩ := Heap.live_split_ne hs
  have hlt : ∀ b w, (b, w) ∈ h.live → b < h.length := fun b w hm => Heap.live_lt hm
  have hlen : ((h.relinkBefore l r).relinkBehind l r).length = h.length := by
    rw [Heap.relinkBehind_length, Heap.relinkBefore_length]
  constructor
  case length =>
    unfold Heap.unhook
    rw [List.length_set, hlen]
  case freed =>
    unfold Heap.unhook
    rw [List.getElem?_set_self]
    rw [hlen]
    exact hlt a v (by rw [hs]; simp)
  case before =>
    rintro m b w rfl
    have hb : some b = lastPtr (m ++ [(b, w)]) := by rw [lastPtr_concat]
    have hne : a ≠ b := fun e => hnel (b, w) (by simp) e.symm
    unfold Heap.unhook
    rw [List.getElem?_set_ne hne,
      Heap.relinkBehind_other _ _ _ (Heap.lastPtr_ne_firstPtr hs hb),
      Heap.relinkBefore_concat, List.getElem?_set_self]
    exact hlt b w (by rw [hs]; simp)
  case behind =>
    rintro b w m rfl
    have hne : a ≠ b := fun e => hner (b, w) (by simp) e.symm
    unfold Heap.unhook
    rw [List.getElem?_set_ne hne, Heap.relinkBehind_cons, List.getElem?_set_self]
    rw [Heap.relinkBefore_length]
    exact hlt b w (by rw [hs]; simp)
  case others =>
    intro b hba hp hn
    unfold Heap.unhook
    rw [List.getElem?_set_ne (fun e => hba e.symm), Heap.relinkBehind_other _ _ _ hn,
      Heap.relinkBefore_other _ _ _ hp]

/-- A node's next pointer is set. -/
theorem Heap.setNext_ok {h : Heap α} {a : Nat} {c : Cell α} (hc : h[a]? = some (some c))
    (p : Ptr) : h.setNext a p = .ok (h.set a (some ⟨c.val, p, c.prev⟩)) := by
  unfold Heap.setNext
  rw [Heap.load_ok.mpr hc]
  rfl

/-- A node's pointer to the one before is set. -/
theorem Heap.setPrev_ok {h : Heap α} {a : Nat} {c : Cell α} (hc : h[a]? = some (some c))
    (p : Ptr) : h.setPrev a p = .ok (h.set a (some ⟨c.val, c.next, p⟩)) := by
  unfold Heap.setPrev
  rw [Heap.load_ok.mpr hc]
  rfl

/-- An allocated block is freed. -/
theorem Heap.free_ok {h : Heap α} {a : Nat} {c : Cell α} (hc : h[a]? = some (some c)) :
    h.free a = .ok (h.set a none) := by
  unfold Heap.free
  rw [Heap.load_ok.mpr hc]
  rfl

/-- `if (node->prev) node->prev->next = node->next`. -/
theorem Heap.Linked.linkNext {h : Heap α} (hl : h.Linked) {l r : List (Nat × α)} {a : Nat}
    {v : α} (hs : h.live = l ++ (a, v) :: r) :
    h.linkNext (lastPtr l) (firstPtr r) = .ok (h.relinkBefore l r) := by
  cases l using List.reverseRecOn with
  | nil => rfl
  | append_singleton m p =>
      obtain ⟨b, w⟩ := p
      have hold := hl m b w ((a, v) :: r) (hs.trans (by simp))
      rw [lastPtr_concat, Heap.relinkBefore_concat]
      exact Heap.setNext_ok hold (firstPtr r)

/-- `if (node->next) node->next->prev = node->prev`. -/
theorem Heap.Linked.linkPrev {h : Heap α} (hl : h.Linked) {l r : List (Nat × α)} {a : Nat}
    {v : α} (hs : h.live = l ++ (a, v) :: r) :
    (h.relinkBefore l r).linkPrev (firstPtr r) (lastPtr l)
      = .ok ((h.relinkBefore l r).relinkBehind l r) := by
  cases r with
  | nil => rfl
  | cons p k =>
      obtain ⟨b, w⟩ := p
      have hold := hl (l ++ [(a, v)]) b w k (hs.trans (by simp))
      have hne : some b ≠ lastPtr l := fun e => Heap.lastPtr_ne_firstPtr hs e rfl
      rw [firstPtr_cons, Heap.relinkBehind_cons]
      refine Heap.setPrev_ok (c := ⟨w, firstPtr k, lastPtr (l ++ [(a, v)])⟩) ?_ (lastPtr l)
      rw [Heap.relinkBefore_other _ _ _ hne]
      exact hold

/-- The node to be freed is still allocated once its neighbours are relinked. -/
theorem Heap.Linked.relinked_self {h : Heap α} (hl : h.Linked) {l r : List (Nat × α)} {a : Nat}
    {v : α} (hs : h.live = l ++ (a, v) :: r) :
    ((h.relinkBefore l r).relinkBehind l r)[a]? = some (some ⟨v, firstPtr r, lastPtr l⟩) := by
  obtain ⟨hnel, hner⟩ := Heap.live_split_ne hs
  rw [Heap.relinkBehind_other _ _ _ ?_, Heap.relinkBefore_other _ _ _ ?_]
  · exact hl l a v r hs
  · intro e
    obtain ⟨m, w, rfl⟩ := lastPtr_eq_some e.symm
    exact hnel (a, w) (by simp) rfl
  · intro e
    obtain ⟨w, k, rfl⟩ := firstPtr_mem e.symm
    exact hner (a, w) (by simp) rfl

/-- `detach` unhooks the node and leaves the head pointer. -/
theorem Table.WF.detach_eq {t : Table α} (hw : t.WF) {l r : List (Nat × α)} {a : Nat} {v : α}
    (hs : t.live = l ++ (a, v) :: r) :
    t.detach a = .ok ⟨t.heap.unhook l r a, t.head⟩ := by
  unfold Table.detach
  rw [hw.linked.load hs, ok_bind, hw.linked.linkNext hs, ok_bind, hw.linked.linkPrev hs, ok_bind,
    Heap.free_ok (hw.linked.relinked_self hs), ok_bind]
  rfl

/-- `remove` unhooks the node and moves the head pointer if it was the first. -/
theorem Table.WF.remove_eq {t : Table α} (hw : t.WF) {l r : List (Nat × α)} {a : Nat} {v : α}
    (hs : t.live = l ++ (a, v) :: r) :
    t.remove a = .ok ⟨t.heap.unhook l r a, if l = [] then firstPtr r else t.head⟩ := by
  have hself := hw.linked.relinked_self hs
  have hnext := hw.linked.linkNext hs
  have hprev := hw.linked.linkPrev hs
  unfold Table.remove
  rw [hw.linked.load hs, ok_bind]
  cases l using List.reverseRecOn with
  | nil =>
      cases r with
      | nil =>
          show (Heap.free t.heap a >>= _) = _
          rw [show t.heap.free a = _ from Heap.free_ok hself]
          rfl
      | cons p k =>
          obtain ⟨b, w⟩ := p
          have hb := hw.linked [(a, v)] b w k hs
          have hlt : b < t.heap.length := (List.getElem?_eq_some_iff.mp hb).1
          have hb' : (t.heap.set b (some ⟨w, firstPtr k, none⟩))[b]?
              = some (some ⟨w, firstPtr k, none⟩) := List.getElem?_set_self hlt
          show ((Heap.setPrev t.heap b none >>= _) >>= _) = _
          rw [Heap.setPrev_ok hb none, ok_bind, ok_bind]
          show (Heap.setPrev (t.heap.set b (some ⟨w, firstPtr k, none⟩)) b none >>= _) = _
          rw [Heap.setPrev_ok hb' none, ok_bind, List.set_set]
          show (Heap.free (t.heap.relinkBehind [] ((b, w) :: k)) a >>= _) = _
          rw [show Heap.free (t.heap.relinkBehind [] ((b, w) :: k)) a = _ from Heap.free_ok hself]
          rfl
  | append_singleton m p =>
      obtain ⟨d, x⟩ := p
      rw [lastPtr_concat] at hnext hprev ⊢
      rw [if_neg (by simp)]
      cases r with
      | nil =>
          have hd := hw.linked m d x [(a, v)] (hs.trans (by simp))
          have hlt : d < t.heap.length := (List.getElem?_eq_some_iff.mp hd).1
          have hd' : (t.heap.set d (some ⟨x, none, lastPtr m⟩))[d]?
              = some (some ⟨x, none, lastPtr m⟩) := List.getElem?_set_self hlt
          show ((Heap.setNext t.heap d none >>= _) >>= _) = _
          rw [Heap.setNext_ok hd none, ok_bind, ok_bind]
          show (Heap.setNext (t.heap.set d (some ⟨x, none, lastPtr m⟩)) d none >>= _) = _
          rw [Heap.setNext_ok hd' none, ok_bind, List.set_set]
          rw [Heap.relinkBehind_nil, Heap.relinkBefore_concat] at hself
          show (Heap.free (t.heap.set d (some ⟨x, none, lastPtr m⟩)) a >>= _) = _
          rw [show Heap.free (t.heap.set d (some ⟨x, none, lastPtr m⟩)) a = _
            from Heap.free_ok hself]
          unfold Heap.unhook
          rw [Heap.relinkBefore_concat]
          rfl
      | cons q k =>
          obtain ⟨b, w⟩ := q
          show ((Heap.setNext t.heap d (some b) >>= _) >>= _) = _
          rw [show Heap.setNext t.heap d (some b) = _ from hnext, ok_bind, ok_bind]
          show (Heap.setPrev _ b (some d) >>= _) = _
          rw [show Heap.setPrev _ b (some d) = _ from hprev, ok_bind, Heap.free_ok hself]
          rfl

/-- A table after `detach`: the head pointer dangles if the node was the
    first one. -/
theorem Table.WF.detach_split {t : Table α} (hw : t.WF) {l r : List (Nat × α)} {a : Nat} {v : α}
    (hs : t.live = l ++ (a, v) :: r) :
    ∃ t', t.detach a = .ok t' ∧ t.Detached t' l r a v := by
  have hu := Heap.unhooked hs
  have hlive : (t.heap.unhook l r a).live = l ++ r := hu.live_eq hw.linked hs
  have hkeep : l ≠ [] → t.Intact → Table.Intact ⟨t.heap.unhook l r a, t.head⟩ := by
    intro hne hi
    show t.head = firstPtr (Heap.live _)
    rw [hlive, show t.head = firstPtr t.live from hi, hs]
    cases l with
    | nil => exact absurd rfl hne
    | cons p l => rfl
  have hdang : l = [] → t.Intact → Table.Dangling ⟨t.heap.unhook l r a, t.head⟩ := by
    rintro rfl hi
    refine ⟨a, ?_, hu.freed⟩
    show t.head = some a
    rw [show t.head = firstPtr t.live from hi, hs]
    rfl
  refine ⟨_, hw.detach_eq hs, hs, hlive, ⟨hu.linked hw.linked hs, ?_⟩, hkeep, hdang, hu.length⟩
  rcases hw.headed with hi | ⟨b, hb, hfree⟩
  · by_cases hl : l = []
    · exact Or.inr (hdang hl hi)
    · exact Or.inl (hkeep hl hi)
  · refine Or.inr ⟨b, hb, ?_⟩
    by_cases hba : b = a
    · rw [hba]
      exact hu.freed
    · show (t.heap.unhook l r a)[b]? = some none
      rw [hu.others b hba ?_ ?_]
      · exact hfree
      · intro e
        obtain ⟨m, w, rfl⟩ := lastPtr_eq_some e.symm
        rw [hw.linked m b w ((a, v) :: r) (hs.trans (by simp))] at hfree
        exact nomatch hfree
      · intro e
        obtain ⟨w, m, rfl⟩ := firstPtr_mem e.symm
        rw [hw.linked (l ++ [(a, v)]) b w m (hs.trans (by simp))] at hfree
        exact nomatch hfree

/-- A table after `remove`: the head pointer follows. -/
theorem Table.WF.remove_split {t : Table α} (hw : t.WF) (hi : t.Intact)
    {l r : List (Nat × α)} {a : Nat} {v : α} (hs : t.live = l ++ (a, v) :: r) :
    ∃ t', t.remove a = .ok t' ∧ t.Removed t' l r a v := by
  have hu := Heap.unhooked hs
  have hlive : (t.heap.unhook l r a).live = l ++ r := hu.live_eq hw.linked hs
  have hint : Table.Intact ⟨t.heap.unhook l r a, if l = [] then firstPtr r else t.head⟩ := by
    show (if l = [] then firstPtr r else t.head) = firstPtr (Heap.live _)
    rw [hlive]
    cases l with
    | nil => rfl
    | cons p l =>
        rw [if_neg (by simp), show t.head = firstPtr t.live from hi, hs]
        rfl
  exact ⟨_, hw.remove_eq hs, hs, hlive, ⟨hu.linked hw.linked hs, Or.inl hint⟩, hint, hu.length⟩

end LibfsHeap
