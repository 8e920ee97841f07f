import Libfs.RingAccounting
import Mathlib.Data.Bool.Basic
import Mathlib.Data.List.Infix

/-! # Requests are handed over whole, if they become complete in order

    `full` counts complete requests while the read index goes through the
    slots in the order in which they were taken.  The two agree as long as
    requests become complete in the order in which they came in; a short
    request that overtakes a long one makes the worker fetch the long one
    before it is complete. -/

namespace LibfsSpecs

open LibfsHeap LibfsStdio LibfsCommon LibfsBuffer LibfsRun

variable {ι : Type} {reqs : ι → ClientReq} {n : Nat} {s : Ring ι}

/-- The last message of a request is handled only when every request that came
    in before it and waits to be fetched is complete. -/
def InOrder (s : Ring ι) : RingEvent ι → Prop
  | .deliver _ r => ∀ m, s.pending r = [m] → ∀ i r', s.fetched.length ≤ i →
      s.arrived[i]? = some r' → r ∉ s.arrived.take (i + 1) → s.pending r' = []
  | .fetch => True

/-- Complete requests are the first ones that came in, and the worker has got
    the first of these, with all their data. -/
structure Ordered (reqs : ι → ClientReq) (s : Ring ι) : Prop where
  ahead : s.completed <+: s.arrived
  handed : List.Forall₂ (fun slot r => Holds (reqs r) slot []) s.fetched
    (s.completed.take s.fetched.length)

theorem ordered_init (buf : ReqBuffer) : Ordered reqs (Ring.init reqs buf) where
  ahead := List.nil_prefix
  handed := .nil

/-- Every message of a request counts: none is left only after the first. -/
theorem Accounted.arrived_of_done (h : Accounted reqs n s) {r : ι} (hr : s.pending r = []) :
    r ∈ s.arrived := by
  by_contra hnot
  have hmsgs := h.fresh r hnot
  rw [hr] at hmsgs
  rcases requestMessages_cases (reqs r) with ⟨m, he, -⟩ | ⟨m, ms, he, -⟩
  · exact nomatch hmsgs.trans he
  · exact nomatch hmsgs.trans he

/-- The request that is complete is known by its number. -/
theorem Ordered.done_iff (h : Accounted reqs n s) (ho : Ordered reqs s) {i : Nat} {r : ι}
    (hr : s.arrived[i]? = some r) : s.pending r = [] ↔ i < s.completed.length := by
  have hmem : r ∈ s.completed ↔ s.pending r = [] := by
    rw [h.finished r]
    exact and_iff_right (List.mem_of_getElem? hr)
  rw [← hmem]
  have hlt : i < s.arrived.length := (List.getElem?_eq_some_iff.mp hr).1
  constructor
  · intro hc
    obtain ⟨j, hj⟩ := List.mem_iff_getElem?.mp hc
    have hjlt : j < s.completed.length := (List.getElem?_eq_some_iff.mp hj).1
    obtain ⟨rest, hrest⟩ := ho.ahead
    have hj' : s.arrived[j]? = some r := by
      rw [← hrest, List.getElem?_append_left hjlt]
      exact hj
    have hij := (List.getElem?_inj hlt h.once).mp (hr.trans hj'.symm)
    omega
  · intro hi
    obtain ⟨rest, hrest⟩ := ho.ahead
    rw [← hrest, List.getElem?_append_left hi] at hr
    exact List.mem_of_getElem? hr

/-- A fetch hands out a complete request. -/
theorem Ordered.fetch (h : Accounted reqs n s) (ho : Ordered reqs s) {k : Nat}
    {slot : ServiceReq} {buf : ReqBuffer} (hb : getServiceReq s.buf = .ok (k, buf))
    (hs : s.buf.slot k = .ok slot) :
    Ordered reqs { s with buf := buf, fetched := s.fetched ++ [slot] } := by
  obtain ⟨-, hlt, r, hr, hholds⟩ := h.next hb hs
  refine ⟨ho.ahead, ?_⟩
  rw [(ho.done_iff h hr).mpr hlt] at hholds
  obtain ⟨rest, hrest⟩ := ho.ahead
  rw [← hrest, List.getElem?_append_left hlt] at hr
  show List.Forall₂ _ (s.fetched ++ [slot]) (s.completed.take (s.fetched ++ [slot]).length)
  rw [List.length_append, List.length_singleton, List.take_add_one, hr]
  exact List.rel_append ho.handed (.cons hholds .nil)

section Steps

variable [DecidableEq ι]

/-- A message that is handled in order keeps the order. -/
theorem Ordered.deliver (h : Accounted reqs n s) (ho : Ordered reqs s) {env : Env} {r : ι}
    {m : RequestMsg} {rest : List RequestMsg} {buf : ReqBuffer} (hm : s.pending r = m :: rest)
    (hin : InOrder s (.deliver env r)) :
    Ordered reqs (s.handled r m rest buf) := by
  have hle := h.fetched_le
  have hcle := h.completed_le
  have hgc : s.fetched.length ≤ s.completed.length := by have := h.full; omega
  have hgrow : s.arrived <+: (s.handled r m rest buf).arrived := by
    show s.arrived <+: if _ then _ else _
    by_cases henq : m.multipart = 0 ∨ m.dataOffset = 0
    · rw [if_pos henq]
      exact List.prefix_append ..
    · rw [if_neg henq]
  by_cases hrest : rest = []
  · have hcomp : (s.handled r m rest buf).completed = s.completed ++ [r] := if_pos hrest
    subst hrest
    -- all requests before `r` are complete
    have hbefore : ∀ i r', s.arrived[i]? = some r' → r ∉ s.arrived.take (i + 1) →
        i < s.completed.length := by
      intro i r' hr' hnot
      rcases Nat.lt_or_ge i s.fetched.length with hlt | hge
      · omega
      · exact (ho.done_iff h hr').mp (hin m hm i r' hge hr' hnot)
    have hahead : s.completed ++ [r] <+: (s.handled r m [] buf).arrived := by
      by_cases hr : r ∈ s.arrived
      · obtain ⟨j, hj⟩ := List.mem_iff_getElem?.mp hr
        have hjlt : j < s.arrived.length := (List.getElem?_eq_some_iff.mp hj).1
        have hnot : ¬ j < s.completed.length := by
          intro hlt
          rw [(ho.done_iff h hj).mpr hlt] at hm
          exact nomatch hm
        have hjc : j = s.completed.length := by
          by_contra hne
          obtain ⟨r', hr'⟩ : ∃ r', s.arrived[s.completed.length]? = some r' :=
            ⟨_, List.getElem?_eq_getElem (by omega)⟩
          refine Nat.lt_irrefl _ (hbefore _ r' hr' fun htake => ?_)
          obtain ⟨i, hi⟩ := List.mem_iff_getElem?.mp htake
          have hilt : i < s.completed.length + 1 := by
            by_contra hge
            rw [List.getElem?_take_eq_none (by omega)] at hi
            exact nomatch hi
          rw [List.getElem?_take_of_lt hilt] at hi
          have := (List.getElem?_inj hjlt h.once).mp (hj.trans hi.symm)
          omega
        have htake : s.completed ++ [r] = s.arrived.take (s.completed.length + 1) := by
          rw [List.take_add_one, ← hjc, hj, hjc, ← List.prefix_iff_eq_take.mp ho.ahead]
          rfl
        rw [htake]
        exact (List.take_prefix ..).trans hgrow
      · -- a single message: everything that came in is complete
        have hall : s.completed.length = s.arrived.length := by
          by_contra hne
          obtain ⟨r', hr'⟩ : ∃ r', s.arrived[s.completed.length]? = some r' :=
            ⟨_, List.getElem?_eq_getElem (by omega)⟩
          exact Nat.lt_irrefl _ (hbefore _ r' hr' fun htake => hr (List.mem_of_mem_take htake))
        have hsame : s.completed = s.arrived := ho.ahead.eq_of_length hall
        have henq : m.multipart = 0 ∨ m.dataOffset = 0 := by
          have hmsgs := h.fresh r hr
          rw [hm] at hmsgs
          rcases requestMessages_cases (reqs r) with ⟨m', he, hsingle⟩ | ⟨m', ms, he, hne, -⟩
          · obtain ⟨rfl, -⟩ := List.cons.inj (hmsgs.trans he)
            exact Or.inl hsingle.multipart
          · exact absurd (List.cons.inj (hmsgs.trans he)).2.symm hne
        show s.completed ++ [r] <+: if _ then _ else _
        rw [if_pos henq, hsame]
    refine ⟨by rw [hcomp]; exact hahead, ?_⟩
    rw [hcomp]
    show List.Forall₂ _ s.fetched ((s.completed ++ [r]).take s.fetched.length)
    rw [List.take_append_of_le_length hgc]
    exact ho.handed
  · have hcomp : (s.handled r m rest buf).completed = s.completed := if_neg hrest
    refine ⟨by rw [hcomp]; exact ho.ahead.trans hgrow, ?_⟩
    rw [hcomp]
    exact ho.handed

/-- The order is kept in every run in order. -/
theorem ordered_of_run (hseq : Function.Injective fun r => (reqs r).seq) {buf : ReqBuffer}
    (hb : reqBufferCreate n = some buf) {es : List (RingEvent ι)}
    (hr : Run (guarded InOrder RingStep) (Ring.init reqs buf) es s) :
    Accounted reqs n s ∧ Ordered reqs s := by
  refine hr.invariant (fun s => Accounted reqs n s ∧ Ordered reqs s)
    ⟨accounted_init hb, ordered_init buf⟩ ?_
  rintro s e s' ⟨h, ho⟩ ⟨hguard, hstep⟩
  cases hstep with
  | deliver hm hb => exact ⟨h.deliver hseq hm hb, ho.deliver h hm hguard⟩
  | fetch hb hs => exact ⟨h.fetch hb hs, ho.fetch h hb hs⟩

omit [DecidableEq ι] in
/-- The worker can fetch for as long as there are complete requests. -/
theorem Accounted.can_fetch (h : Accounted reqs n s)
    (hlt : s.fetched.length < s.completed.length) :
    ∃ k slot buf, getServiceReq s.buf = .ok (k, buf) ∧ s.buf.slot k = .ok slot := by
  have hfull : 0 < s.buf.full := by have := h.full; omega
  obtain ⟨buf, hb⟩ := getServiceReq_of_full h.unlocked hfull
  have hlt' : s.fetched.length < s.arrived.length := Nat.lt_of_lt_of_le hlt h.completed_le
  obtain ⟨slot, hslot, -⟩ := h.held _ _ (Nat.le_refl _) (List.getElem?_eq_getElem hlt')
  rw [← h.read] at hslot
  exact ⟨_, slot, buf, hb, slot_ok.mpr hslot⟩

/-- In a run in order the worker only gets complete requests, and it gets the
    complete requests one by one, each once, in the order in which they came
    in; while one of them is left it can fetch. -/
theorem handed_over_whole (hseq : Function.Injective fun r => (reqs r).seq) {buf : ReqBuffer}
    (hb : reqBufferCreate n = some buf) {es : List (RingEvent ι)}
    (hr : Run (guarded InOrder RingStep) (Ring.init reqs buf) es s) :
    (∀ slot ∈ s.fetched, slot.reqStatus = .ready) ∧
      (s.completed.Nodup ∧ ∀ r, r ∈ s.completed ↔ s.pending r = []) ∧
      List.Forall₂ (fun slot r => Holds (reqs r) slot []) s.fetched
        (s.completed.take s.fetched.length) ∧
      (s.fetched.length < s.completed.length → ∃ s', guarded InOrder RingStep s .fetch s') := by
  obtain ⟨h, ho⟩ := ordered_of_run hseq hb hr
  refine ⟨?_, ⟨h.distinct, fun r => ?_⟩, ho.handed, fun hlt => ?_⟩
  · intro slot hslot
    obtain ⟨i, hi⟩ := List.mem_iff_getElem?.mp hslot
    have hlen := ho.handed.length_eq
    have hilt : i < s.fetched.length := (List.getElem?_eq_some_iff.mp hi).1
    have hwhole := ho.handed.get hilt (by omega)
    have hget : s.fetched.get ⟨i, hilt⟩ = slot := (List.getElem?_eq_some_iff.mp hi).2
    rw [hget] at hwhole
    exact hwhole.status
  · rw [h.finished r]
    exact ⟨And.right, fun hp => ⟨h.arrived_of_done hp, hp⟩⟩
  · obtain ⟨k, slot, buf', hg, hs⟩ := h.can_fetch hlt
    exact ⟨_, trivial, .fetch hg hs⟩

/-- The test for what comes in order. -/
def inOrder (s : Ring ι) : RingEvent ι → Bool
  | .deliver _ r =>
      match s.pending r with
      | [_] => decide (∀ i < s.arrived.length, s.fetched.length ≤ i → r ∉ s.arrived.take (i + 1) →
          s.arrived[i]?.all (fun r' => (s.pending r').isEmpty) = true)
      | _ => true
  | .fetch => true

theorem inOrder_sound {e : RingEvent ι} (h : inOrder s e = true) : InOrder s e := by
  cases e with
  | fetch => trivial
  | deliver env r =>
      intro m hm i r' hi hr' hnew
      unfold inOrder at h
      simp only [hm] at h
      have hlt : i < s.arrived.length := (List.getElem?_eq_some_iff.mp hr').1
      have hdone := of_decide_eq_true h i hlt hi hnew
      rw [hr'] at hdone
      exact List.isEmpty_iff.mp hdone

/-- In a ring of two slots a request of two parts is fetched, another one comes
    in, and is fetched too. -/
theorem twoClients_handed : ∃ s,
    play (checked inOrder Ring.step) (Ring.init twoClients ⟨false, 2, 0, 0, 0, 2, [zeroReq, zeroReq]⟩)
      [.deliver ⟨fun _ => ⟨0, 0⟩, fun _ => 0⟩ true, .deliver ⟨fun _ => ⟨0, 0⟩, fun _ => 0⟩ true,
        .fetch, .deliver ⟨fun _ => ⟨0, 0⟩, fun _ => 0⟩ false, .fetch] = some s ∧
      s.fetched.map ServiceReq.seq = [1, 2] ∧ ∀ slot ∈ s.fetched, slot.reqStatus = .ready := by
  have hplay : (play (checked inOrder Ring.step)
      (Ring.init twoClients ⟨false, 2, 0, 0, 0, 2, [zeroReq, zeroReq]⟩)
      [.deliver ⟨fun _ => ⟨0, 0⟩, fun _ => 0⟩ true, .deliver ⟨fun _ => ⟨0, 0⟩, fun _ => 0⟩ true,
        .fetch, .deliver ⟨fun _ => ⟨0, 0⟩, fun _ => 0⟩ false, .fetch]).map
        (fun s => s.fetched.map ServiceReq.seq) = some [1, 2] := by decide +kernel
  obtain ⟨s, hs, hseqs⟩ := Option.map_eq_some_iff.mp hplay
  have hrun : Run (guarded InOrder RingStep) (Ring.init twoClients _) _ s :=
    play_run (fun _ _ _ h => ⟨inOrder_sound (checked_some h).1, Ring.step_some (checked_some h).2⟩) hs
  exact ⟨s, hs, hseqs, (handed_over_whole (n := 2) twoClients_seq rfl hrun).1⟩

/-- The single message overtakes the second part, and the worker fetches the
    slot of which only the first part is there. -/
theorem unfinished_handed_over : ¬ ∀ (reqs : Bool → ClientReq) (n : Nat) (buf : ReqBuffer)
    (es : List (RingEvent Bool)) (s : Ring Bool), (Function.Injective fun r => (reqs r).seq) →
    reqBufferCreate n = some buf → Run RingStep (Ring.init reqs buf) es s →
    ∀ slot ∈ s.fetched, slot.reqStatus = .ready := by
  intro hclaim
  let buf : ReqBuffer := ⟨false, 2, 0, 0, 0, 2, [zeroReq, zeroReq]⟩
  let env : Env := ⟨fun _ => ⟨0, 0⟩, fun _ => 0⟩
  have hstatus : (play Ring.step (Ring.init twoClients buf)
      [.deliver env true, .deliver env false, .fetch]).map
        (fun s => s.fetched.map ServiceReq.reqStatus) = some [.inProgress] := by decide +kernel
  obtain ⟨s, hs, hslots⟩ := Option.map_eq_some_iff.mp hstatus
  have hrun := play_run (fun _ _ _ => Ring.step_some) hs
  have hready := hclaim twoClients 2 buf _ s twoClients_seq rfl hrun
  obtain ⟨slot, hslot⟩ := List.length_eq_one_iff.mp
    (by rw [← List.length_map ServiceReq.reqStatus, hslots]; rfl : s.fetched.length = 1)
  rw [hslot] at hready hslots
  have hin : slot.reqStatus = .inProgress := (List.cons.inj hslots).1
  exact nomatch hin.symm.trans (hready slot (List.mem_singleton.mpr rfl))

end Steps

end LibfsSpecs
