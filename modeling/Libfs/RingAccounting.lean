import Libfs.Ring

/-! # The accounts of the request buffer

    In every run the two semaphores and the two indices are functions of
    three numbers: how many requests took a slot, how many are complete and
    how many were fetched.  So no slot is filled while it waits to be
    fetched, and no slot is fetched twice or before it was filled. -/

namespace LibfsSpecs

open LibfsHeap LibfsStdio LibfsCommon LibfsBuffer LibfsRun

variable {ι : Type} [DecidableEq ι] {reqs : ι → ClientReq} {n : Nat} {s : Ring ι}

/-- The accounts are kept in every run. -/
theorem accounted_of_run (hseq : Function.Injective fun r => (reqs r).seq) {buf : ReqBuffer}
    (hb : reqBufferCreate n = some buf) {es : List (RingEvent ι)}
    (hr : Run RingStep (Ring.init reqs buf) es s) : Accounted reqs n s := by
  refine hr.invariant (Accounted reqs n) (accounted_init hb) ?_
  rintro s e s' h hstep
  cases hstep with
  | deliver hm hb => exact h.deliver hseq hm hb
  | fetch hb hs => exact h.fetch hb hs

/-- The semaphores and the indices, by the numbers of requests that took a
    slot, that are complete and that were fetched. -/
structure RingCounts (n : Nat) (s : Ring ι) : Prop where
  fetched_le : s.fetched.length ≤ s.completed.length
  completed_le : s.completed.length ≤ s.arrived.length
  arrived_le : s.arrived.length ≤ s.fetched.length + n
  write : s.buf.wrIdx = s.arrived.length % n
  read : s.buf.rdIdx = s.fetched.length % n
  empty : s.buf.empty = n - (s.arrived.length - s.fetched.length)
  full : s.buf.full = s.completed.length - s.fetched.length

omit [DecidableEq ι] in
theorem Accounted.counts (h : Accounted reqs n s) : RingCounts n s := by
  have hcompleted := h.completed_le
  have hfetched := h.fetched_le
  have hempty := h.empty
  have hfull := h.full
  exact ⟨by omega, hcompleted, by omega, h.write, h.read, by omega, by omega⟩

/-- A message that takes a slot takes the one at the write index. -/
theorem Handled.enqueued {rbuf rbuf' : ReqBuffer} {msg : RequestMsg} (h : Handled rbuf msg rbuf')
    (henq : msg.multipart = 0 ∨ msg.dataOffset = 0) :
    HasRoom rbuf ∧ ∃ req, rbuf'.reqs = rbuf.reqs.set rbuf.wrIdx req := by
  cases h with
  | single _ hroom => exact ⟨hroom, _, rfl⟩
  | first _ _ hroom => exact ⟨hroom, _, rfl⟩
  | next hm ho =>
      rcases henq with h0 | h0
      · exact absurd h0 hm
      · exact absurd h0 ho

/-- A request that takes a slot leaves the slots that wait to be fetched as
    they are. -/
theorem Accounted.keeps_window (h : Accounted reqs n s) {env : Env} {r : ι} {s' : Ring ι}
    (hstep : RingStep s (.deliver env r) s') (hnew : s.arrived.length < s'.arrived.length) {i : Nat}
    (hi : s.fetched.length ≤ i) (hlt : i < s.arrived.length) :
    s'.buf.reqs[i % n]? = s.buf.reqs[i % n]? := by
  cases hstep with
  | @deliver _ _ m rest buf hm hb =>
      have henq : m.multipart = 0 ∨ m.dataOffset = 0 := by
        by_contra hnot
        have harr : (s.handled r m rest buf).arrived = s.arrived := if_neg hnot
        rw [harr] at hnew
        exact Nat.lt_irrefl _ hnew
      obtain ⟨hroom, req, hreqs⟩ := (handleMsg_ok hb).enqueued henq
      have hpos := hroom.empty
      have hempty := h.empty
      have hle := h.fetched_le
      have hne : s.arrived.length % n ≠ i % n := by
        intro he
        have := turn_inj (g := s.fetched.length) hle (by omega) hi (by omega) he
        omega
      show buf.reqs[i % n]? = _
      rw [hreqs, h.write, List.getElem?_set_ne hne]

/-- Every run keeps the accounts of the ring.  A request that takes a slot
    overwrites none that waits to be fetched, and a fetch hands out the slot
    of the request that came in next after those fetched before. -/
theorem ring_accounting (hseq : Function.Injective fun r => (reqs r).seq) {buf : ReqBuffer}
    (hb : reqBufferCreate n = some buf) {es : List (RingEvent ι)}
    (hr : Run RingStep (Ring.init reqs buf) es s) :
    RingCounts n s ∧
      (s.arrived.Nodup ∧ s.fetched.map ServiceReq.seq
        = (s.arrived.take s.fetched.length).map fun r => (reqs r).seq) ∧
      (∀ env r s', RingStep s (.deliver env r) s' → s.arrived.length < s'.arrived.length →
        ∀ i, s.fetched.length ≤ i → i < s.arrived.length →
          s'.buf.reqs[i % n]? = s.buf.reqs[i % n]?) ∧
      ∀ s', RingStep s .fetch s' → ∃ r slot, s.arrived[s.fetched.length]? = some r ∧
        s.buf.reqs[s.fetched.length % n]? = some slot ∧ slot.seq = (reqs r).seq ∧
        s'.fetched = s.fetched ++ [slot] := by
  have h := accounted_of_run hseq hb hr
  refine ⟨h.counts, ⟨h.once, h.order⟩, ?_, ?_⟩
  · intro env r s' hstep hnew i hi hlt
    exact h.keeps_window hstep hnew hi hlt
  · intro s' hstep
    cases hstep with
    | @fetch k slot buf' hg hs =>
        obtain ⟨hk, -, r, hr', hholds⟩ := h.next hg hs
        refine ⟨r, slot, hr', ?_, hholds.seq, rfl⟩
        rw [← hk]
        exact slot_ok.mp hs

theorem oneByte_short : ([65] : Bytes).length < 4294967296 := by decide

/-- A client with a request of two parts and one with a request of one. -/
def twoClients : Bool → ClientReq
  | true => ⟨.write, 1, List.replicate 4065 65, by rw [List.length_replicate]; decide⟩
  | false => ⟨.create, 2, [65], oneByte_short⟩

/-- The two requests have sequence numbers of their own. -/
theorem twoClients_seq : Function.Injective fun r => (twoClients r).seq :=
  Bool.injective_iff.mpr (by decide)

/-- A ring of three slots, after the single message came in between the two
    parts and both requests were fetched. -/
theorem twoClients_accounts : ∃ s,
    play Ring.step (Ring.init twoClients ⟨false, 3, 0, 0, 0, 3, [zeroReq, zeroReq, zeroReq]⟩)
      [.deliver ⟨fun _ => ⟨0, 0⟩, fun _ => 0⟩ true, .deliver ⟨fun _ => ⟨0, 0⟩, fun _ => 0⟩ false,
        .deliver ⟨fun _ => ⟨0, 0⟩, fun _ => 0⟩ true, .fetch, .fetch] = some s ∧
      s.arrived = [true, false] ∧ s.completed = [false, true] ∧ RingCounts 3 s := by
  have hplay : (play Ring.step
      (Ring.init twoClients ⟨false, 3, 0, 0, 0, 3, [zeroReq, zeroReq, zeroReq]⟩)
      [.deliver ⟨fun _ => ⟨0, 0⟩, fun _ => 0⟩ true, .deliver ⟨fun _ => ⟨0, 0⟩, fun _ => 0⟩ false,
        .deliver ⟨fun _ => ⟨0, 0⟩, fun _ => 0⟩ true, .fetch, .fetch]).map
        (fun s => (s.arrived, s.completed)) = some ([true, false], [false, true]) := by
    decide +kernel
  obtain ⟨s, hs, horder⟩ := Option.map_eq_some_iff.mp hplay
  obtain ⟨harrived, hcompleted⟩ := Prod.mk.inj horder
  have hrun := play_run (fun _ _ _ => Ring.step_some) hs
  exact ⟨s, hs, harrived, hcompleted, (ring_accounting twoClients_seq rfl hrun).1⟩

end LibfsSpecs
