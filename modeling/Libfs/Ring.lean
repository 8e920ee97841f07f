import Libfs.BufferSpecs
import Libfs.Run
import Mathlib.Data.List.Nodup
import Mathlib.Data.List.Perm.Subperm
import Mathlib.Logic.Function.Basic

/-! # Clients, receiver and worker around the request buffer

    Any number of clients send the messages of their requests; the receiver
    hands them to `handle_msg` in any order that keeps the parts of one
    request in order, and the worker calls `get_service_req`.  `Accounted` is
    what ties the semaphores, the two indices and the slots to the requests
    that came in.  A message that is not handled ends the service, so a run
    goes on for as long as `handle_msg` returns zero. -/

namespace LibfsSpecs

open LibfsHeap LibfsStdio LibfsCommon LibfsBuffer LibfsRun

/-! ## The system -/

variable {ι : Type}

/-- The buffer, the messages still to come of each request, and what has
    happened so far: the requests that took a slot and those that are
    complete, in the order in which that happened, and the slots as the
    worker got to see them. -/
structure Ring (ι : Type) where
  buf : ReqBuffer
  pending : ι → List RequestMsg
  arrived : List ι
  completed : List ι
  fetched : List ServiceReq

/-- The next message of a request is handled, or a request is fetched. -/
inductive RingEvent (ι : Type) where
  | deliver (env : Env) (r : ι)
  | fetch

section Steps

variable [DecidableEq ι]

/-- The ring after the first pending message `m` of `r` was handled. -/
def Ring.handled (s : Ring ι) (r : ι) (m : RequestMsg) (rest : List RequestMsg)
    (buf : ReqBuffer) : Ring ι where
  buf := buf
  pending := Function.update s.pending r rest
  arrived := if m.multipart = 0 ∨ m.dataOffset = 0 then s.arrived ++ [r] else s.arrived
  completed := if rest = [] then s.completed ++ [r] else s.completed
  fetched := s.fetched

/-- A message is handled, or a complete request is fetched. -/
inductive RingStep : Ring ι → RingEvent ι → Ring ι → Prop where
  | deliver {s : Ring ι} {env : Env} {r : ι} {m : RequestMsg} {rest : List RequestMsg}
      {buf : ReqBuffer} (hm : s.pending r = m :: rest)
      (hb : handleMsg env s.buf (received m) = .ok (0, buf)) :
      RingStep s (.deliver env r) (s.handled r m rest buf)
  | fetch {s : Ring ι} {k : Nat} {slot : ServiceReq} {buf : ReqBuffer}
      (hb : getServiceReq s.buf = .ok (k, buf)) (hs : s.buf.slot k = .ok slot) :
      RingStep s .fetch { s with buf := buf, fetched := s.fetched ++ [slot] }

/-- One event, if it is possible. -/
def Ring.step (s : Ring ι) : RingEvent ι → Option (Ring ι)
  | .deliver env r =>
      match s.pending r with
      | [] => none
      | m :: rest =>
          match handleMsg env s.buf (received m) with
          | .ok (0, buf) => some (s.handled r m rest buf)
          | _ => none
  | .fetch =>
      match getServiceReq s.buf with
      | .ok (k, buf) =>
          match s.buf.slot k with
          | .ok slot => some { s with buf := buf, fetched := s.fetched ++ [slot] }
          | .error _ => none
      | .error _ => none

/-- What is computed is a step. -/
theorem Ring.step_some {s s' : Ring ι} {e : RingEvent ι} (h : s.step e = some s') :
    RingStep s e s' := by
  cases e with
  | deliver env r =>
      unfold Ring.step at h
      cases hm : s.pending r with
      | nil =>
          simp only [hm] at h
          exact nomatch h
      | cons m rest =>
          simp only [hm] at h
          split at h
          · next buf hb =>
              cases h
              exact .deliver hm hb
          · exact nomatch h
  | fetch =>
      unfold Ring.step at h
      cases hb : getServiceReq s.buf with
      | error stop =>
          simp only [hb] at h
          exact nomatch h
      | ok p =>
          simp only [hb] at h
          cases hs : s.buf.slot p.1 with
          | error stop =>
              simp only [hs] at h
              exact nomatch h
          | ok slot =>
              simp only [hs] at h
              cases h
              exact .fetch hb hs

end Steps

/-- Nothing has come in yet. -/
def Ring.init (reqs : ι → ClientReq) (buf : ReqBuffer) : Ring ι where
  buf := buf
  pending := fun r => requestMessages (reqs r)
  arrived := []
  completed := []
  fetched := []

/-! ## The invariant -/

/-- Semaphores, indices and slots agree with what has happened.  Slot `i % n`
    belongs to the request that came in as number `i`, from the moment it
    takes the slot until it is fetched. -/
structure Accounted (reqs : ι → ClientReq) (n : Nat) (s : Ring ι) : Prop where
  size : s.buf.size = n
  length : s.buf.reqs.length = n
  unlocked : s.buf.lock = false
  write : s.buf.wrIdx = s.arrived.length % n
  read : s.buf.rdIdx = s.fetched.length % n
  empty : s.buf.empty + s.arrived.length = s.fetched.length + n
  full : s.buf.full + s.fetched.length = s.completed.length
  once : s.arrived.Nodup
  distinct : s.completed.Nodup
  finished : ∀ r, r ∈ s.completed ↔ r ∈ s.arrived ∧ s.pending r = []
  fresh : ∀ r, r ∉ s.arrived → s.pending r = requestMessages (reqs r)
  further : ∀ r ∈ s.arrived, ∀ m ∈ s.pending r,
    m.multipart ≠ 0 ∧ m.dataOffset ≠ 0 ∧ m.seq = (reqs r).seq
  held : ∀ i r, s.fetched.length ≤ i → s.arrived[i]? = some r →
    ∃ slot, s.buf.reqs[i % n]? = some slot ∧ Holds (reqs r) slot (s.pending r)
  order : s.fetched.map ServiceReq.seq
    = (s.arrived.take s.fetched.length).map fun r => (reqs r).seq

section Accounting

variable {reqs : ι → ClientReq} {n : Nat} {s : Ring ι}

/-- Only requests that came in are complete. -/
theorem Accounted.completed_le (h : Accounted reqs n s) :
    s.completed.length ≤ s.arrived.length :=
  (List.subperm_of_subset h.distinct fun r hr => ((h.finished r).mp hr).1).length_le

/-- Only complete requests are counted by `full`. -/
theorem Accounted.fetched_le (h : Accounted reqs n s) : s.fetched.length ≤ s.arrived.length := by
  have h1 := h.completed_le
  have h2 := h.full
  omega

theorem accounted_init {buf : ReqBuffer} (hb : reqBufferCreate n = some buf) :
    Accounted reqs n (Ring.init reqs buf) := by
  unfold reqBufferCreate at hb
  by_cases hn : n > 0
  · rw [if_pos hn] at hb
    cases hb
    constructor
    case size => rfl
    case length => exact List.length_replicate
    case unlocked => rfl
    case write =>
      exact (Nat.zero_mod n).symm
    case read =>
      exact (Nat.zero_mod n).symm
    case empty =>
      exact (Nat.add_zero n).trans (Nat.zero_add n).symm
    case full => rfl
    case once => exact List.nodup_nil
    case distinct => exact List.nodup_nil
    case finished =>
      intro r
      constructor
      · intro hr
        exact nomatch hr
      · rintro ⟨hr, -⟩
        exact nomatch hr
    case fresh =>
      intro _ _
      rfl
    case further =>
      intro r hr
      exact nomatch hr
    case held =>
      intro i r _ hr
      exact nomatch hr
    case order => rfl
  · rw [if_neg hn] at hb
    exact nomatch hb

/-- What a fetch hands out: the request that came in next after those that
    were fetched. -/
theorem Accounted.next (h : Accounted reqs n s) {k : Nat} {slot : ServiceReq} {buf : ReqBuffer}
    (hb : getServiceReq s.buf = .ok (k, buf)) (hs : s.buf.slot k = .ok slot) :
    k = s.fetched.length % n ∧ s.fetched.length < s.completed.length ∧
      ∃ r, s.arrived[s.fetched.length]? = some r ∧ Holds (reqs r) slot (s.pending r) := by
  obtain ⟨hk, -, hfull, -⟩ := getServiceReq_ok hb
  have hlt : s.fetched.length < s.completed.length := by have := h.full; omega
  have hlt' : s.fetched.length < s.arrived.length := Nat.lt_of_lt_of_le hlt h.completed_le
  refine ⟨hk.trans h.read, hlt, _, List.getElem?_eq_getElem hlt', ?_⟩
  obtain ⟨slot', hslot, hholds⟩ := h.held _ _ (Nat.le_refl _) (List.getElem?_eq_getElem hlt')
  rw [← h.read, ← hk, slot_ok.mp hs] at hslot
  cases hslot
  exact hholds

/-- A fetch keeps the accounts. -/
theorem Accounted.fetch (h : Accounted reqs n s) {k : Nat} {slot : ServiceReq} {buf : ReqBuffer}
    (hb : getServiceReq s.buf = .ok (k, buf)) (hs : s.buf.slot k = .ok slot) :
    Accounted reqs n { s with buf := buf, fetched := s.fetched ++ [slot] } := by
  obtain ⟨-, hlt, r, hr, hholds⟩ := h.next hb hs
  obtain ⟨-, -, hfull, rfl⟩ := getServiceReq_ok hb
  have hlen : (s.fetched ++ [slot]).length = s.fetched.length + 1 := List.length_append
  have hempty := h.empty
  have hcount := h.full
  constructor
  case size => exact h.size
  case length => exact h.length
  case unlocked => exact h.unlocked
  case write => exact h.write
  case read =>
    rw [hlen]
    show (s.buf.rdIdx + 1) % s.buf.size = _
    rw [h.size, h.read, Nat.mod_add_mod]
  case empty =>
    rw [hlen]
    show s.buf.empty + 1 + s.arrived.length = _
    omega
  case full =>
    rw [hlen]
    show s.buf.full - 1 + (s.fetched.length + 1) = s.completed.length
    omega
  case once => exact h.once
  case distinct => exact h.distinct
  case finished => exact h.finished
  case fresh => exact h.fresh
  case further => exact h.further
  case held =>
    intro i r' hi hr'
    rw [hlen] at hi
    exact h.held i r' (by omega) hr'
  case order =>
    rw [hlen, List.take_add_one, List.map_append, List.map_append, h.order, hr]
    show _ ++ [slot.seq] = _ ++ [(reqs r).seq]
    rw [hholds.seq]

/-- The slot a search comes to is that of the request with the number. -/
theorem Accounted.slot_of_seq (hseq : Function.Injective fun r => (reqs r).seq)
    (h : Accounted reqs n s) {i : Nat} {req : ServiceReq} {r : ι} (h1 : s.buf.rdIdx ≤ i)
    (h2 : i < s.buf.wrIdx) (hreq : s.buf.reqs[i]? = some req) (hrseq : req.seq = (reqs r).seq) :
    ∃ j, s.fetched.length ≤ j ∧ i = j % n ∧ s.arrived[j]? = some r ∧
      Holds (reqs r) req (s.pending r) := by
  rw [h.read] at h1
  rw [h.write] at h2
  obtain ⟨j, hj, hjlt, rfl⟩ := window_of_scan h.fetched_le (by have := h.empty; omega) h1 h2
  obtain ⟨r', hr'⟩ : ∃ r', s.arrived[j]? = some r' := ⟨_, List.getElem?_eq_getElem hjlt⟩
  obtain ⟨slot, hslot, hholds⟩ := h.held j r' hj hr'
  cases hreq.symm.trans hslot
  obtain rfl : r' = r := hseq (hholds.seq.symm.trans hrseq)
  exact ⟨j, hj, rfl, hr', hholds⟩

variable [DecidableEq ι]

/-- The books on complete requests after a message of `r`, which is complete
    if no message is left. -/
theorem Accounted.completes (h : Accounted reqs n s) {r : ι} {rest : List RequestMsg}
    (hnot : r ∉ s.completed) {full : Nat} (hfull : full = s.buf.full + if rest = [] then 1 else 0)
    {completed : List ι}
    (hc : completed = if rest = [] then s.completed ++ [r] else s.completed) :
    full + s.fetched.length = completed.length ∧ completed.Nodup ∧
      ∀ arrived : List ι, (∀ r', r' ∈ arrived ↔ r' ∈ s.arrived ∨ r' = r) →
        ∀ r', r' ∈ completed ↔ r' ∈ arrived ∧ Function.update s.pending r rest r' = [] := by
  have hcount := h.full
  have hother : ∀ r', r' ≠ r → (r' ∈ s.completed ↔
      r' ∈ s.arrived ∧ Function.update s.pending r rest r' = []) := by
    intro r' hne
    rw [Function.update_of_ne hne]
    exact h.finished r'
  by_cases hrest : rest = []
  · rw [if_pos hrest] at hfull hc
    subst hc
    refine ⟨?_, ?_, fun arrived harr r' => ?_⟩
    · rw [List.length_append, List.length_singleton]
      omega
    · rw [← List.concat_eq_append]
      exact h.distinct.concat hnot
    · rw [List.mem_append, List.mem_singleton, harr r']
      by_cases he : r' = r
      · subst he
        rw [Function.update_self]
        exact ⟨fun _ => ⟨Or.inr rfl, hrest⟩, fun _ => Or.inr rfl⟩
      · rw [or_iff_left he, or_iff_left he]
        exact hother r' he
  · rw [if_neg hrest] at hfull hc
    subst hc
    refine ⟨by omega, h.distinct, fun arrived harr r' => ?_⟩
    rw [harr r']
    by_cases he : r' = r
    · subst he
      rw [Function.update_self]
      exact ⟨fun hd => absurd hd hnot, fun hd => absurd hd.2 hrest⟩
    · rw [or_iff_left he]
      exact hother r' he

/-- The messages of a request that did not come in yet, and the one that comes
    in with the first of them. -/
theorem Accounted.arrival (h : Accounted reqs n s) {r : ι} (hr : r ∉ s.arrived) {m : RequestMsg}
    {rest : List RequestMsg} (hm : s.pending r = m :: rest) {slot : ServiceReq} {full : Nat}
    (hroom : HasRoom s.buf) (hholds : Holds (reqs r) slot rest)
    (henq : m.multipart = 0 ∨ m.dataOffset = 0)
    (hfurther : ∀ m' ∈ rest, m'.multipart ≠ 0 ∧ m'.dataOffset ≠ 0 ∧ m'.seq = (reqs r).seq)
    (hfull : full = s.buf.full + if rest = [] then 1 else 0) :
    Accounted reqs n (s.handled r m rest { pushReq s.buf slot with full := full }) := by
  have hle := h.fetched_le
  have hempty := h.empty
  have hpos := hroom.empty
  have hpend : ∀ r', r' ≠ r → Function.update s.pending r rest r' = s.pending r' :=
    fun r' hne => Function.update_of_ne hne ..
  have hself : Function.update s.pending r rest r = rest := Function.update_self ..
  have hbooks := h.completes (fun hc => hr ((h.finished r).mp hc).1) hfull
    (show (s.handled r m rest { pushReq s.buf slot with full := full }).completed = _ from rfl)
  have harr : (s.handled r m rest { pushReq s.buf slot with full := full }).arrived
      = s.arrived ++ [r] := if_pos henq
  have hlen : (s.arrived ++ [r]).length = s.arrived.length + 1 := List.length_append
  constructor
  case size => exact h.size
  case length =>
    exact List.length_set.trans h.length
  case unlocked => exact h.unlocked
  case write =>
    rw [harr, hlen]
    show (s.buf.wrIdx + 1) % s.buf.size = _
    rw [h.size, h.write, Nat.mod_add_mod]
  case read => exact h.read
  case empty =>
    rw [harr, hlen]
    show s.buf.empty - 1 + (s.arrived.length + 1) = s.fetched.length + n
    omega
  case full =>
    exact hbooks.1
  case once =>
    rw [harr, ← List.concat_eq_append]
    exact h.once.concat hr
  case distinct =>
    exact hbooks.2.1
  case finished =>
    rw [harr]
    exact hbooks.2.2 _ fun r' => by rw [List.mem_append, List.mem_singleton]
  case fresh =>
    intro r' hr'
    rw [harr, List.mem_append, List.mem_singleton, not_or] at hr'
    show Function.update s.pending r rest r' = _
    rw [hpend r' hr'.2]
    exact h.fresh r' hr'.1
  case further =>
    intro r' hr' m' hm'
    rw [harr, List.mem_append, List.mem_singleton] at hr'
    change m' ∈ Function.update s.pending r rest r' at hm'
    by_cases he : r' = r
    · subst he
      rw [hself] at hm'
      exact hfurther m' hm'
    · rw [hpend r' he] at hm'
      exact h.further r' (hr'.resolve_right he) m' hm'
  case held =>
    intro i r' hi hr'
    rw [harr] at hr'
    show ∃ slot', (s.buf.reqs.set s.buf.wrIdx slot)[i % n]? = some slot' ∧
      Holds (reqs r') slot' (Function.update s.pending r rest r')
    rw [h.write]
    change s.fetched.length ≤ i at hi
    rcases Nat.lt_trichotomy i s.arrived.length with hlt | rfl | hgt
    · -- the slots of the window are others than the one at the write index
      rw [List.getElem?_append_left hlt] at hr'
      have hne : s.arrived.length % n ≠ i % n := by
        intro he
        have := turn_inj (g := s.fetched.length) hle (by omega) hi (by omega) he
        omega
      rw [List.getElem?_set_ne hne, hpend r' (fun he => hr (he ▸ List.mem_of_getElem? hr'))]
      exact h.held i r' hi hr'
    · rw [List.getElem?_concat_length] at hr'
      cases hr'
      refine ⟨slot, ?_, by rw [hself]; exact hholds⟩
      rw [List.getElem?_set_self]
      rw [← h.write]
      exact hroom.inside
    · rw [List.getElem?_eq_none (by omega)] at hr'
      exact nomatch hr'
  case order =>
    rw [harr]
    show s.fetched.map ServiceReq.seq = ((s.arrived ++ [r]).take s.fetched.length).map _
    rw [List.take_append_of_le_length hle]
    exact h.order

/-- A further part of a request whose slot is still in the window. -/
theorem Accounted.part (h : Accounted reqs n s) {r : ι} {j : Nat} (hj : s.fetched.length ≤ j)
    (hr : s.arrived[j]? = some r) {m : RequestMsg} {rest : List RequestMsg}
    (hm : s.pending r = m :: rest) {slot' : ServiceReq} {full : Nat}
    (hholds : Holds (reqs r) slot' rest)
    (hfull : full = s.buf.full + if rest = [] then 1 else 0) :
    Accounted reqs n (s.handled r m rest { s.buf with
      reqs := s.buf.reqs.set (j % n) slot'
      full := full }) := by
  have hmem : r ∈ s.arrived := List.mem_of_getElem? hr
  have hle := h.fetched_le
  have hjlt : j < s.arrived.length := (List.getElem?_eq_some_iff.mp hr).1
  have hwin : s.arrived.length ≤ s.fetched.length + n := by have := h.empty; omega
  have hpend : ∀ r', r' ≠ r → Function.update s.pending r rest r' = s.pending r' :=
    fun r' hne => Function.update_of_ne hne ..
  have hself : Function.update s.pending r rest r = rest := Function.update_self ..
  have hnotdone : r ∉ s.completed := by
    intro hc
    have hnil := ((h.finished r).mp hc).2
    rw [hm] at hnil
    exact nomatch hnil
  have hbooks := h.completes hnotdone hfull
    (show (s.handled r m rest s.buf).completed = _ from rfl)
  have henq : ¬ (m.multipart = 0 ∨ m.dataOffset = 0) := by
    obtain ⟨h1, h2, -⟩ := h.further r hmem m (by rw [hm]; exact List.mem_cons_self ..)
    rintro (h0 | h0)
    · exact h1 h0
    · exact h2 h0
  have harr : (s.handled r m rest { s.buf with
      reqs := s.buf.reqs.set (j % n) slot'
      full := full }).arrived = s.arrived := if_neg henq
  constructor
  case size => exact h.size
  case length =>
    exact List.length_set.trans h.length
  case unlocked => exact h.unlocked
  case write =>
    rw [harr]
    exact h.write
  case read => exact h.read
  case empty =>
    rw [harr]
    exact h.empty
  case full =>
    exact hbooks.1
  case once =>
    rw [harr]
    exact h.once
  case distinct =>
    exact hbooks.2.1
  case finished =>
    rw [harr]
    exact hbooks.2.2 _ fun r' => ⟨Or.inl, fun hr' => hr'.elim id fun he => he ▸ hmem⟩
  case fresh =>
    intro r' hr'
    rw [harr] at hr'
    show Function.update s.pending r rest r' = _
    rw [hpend r' (fun he => hr' (he ▸ hmem))]
    exact h.fresh r' hr'
  case further =>
    intro r' hr' m' hm'
    rw [harr] at hr'
    change m' ∈ Function.update s.pending r rest r' at hm'
    by_cases he : r' = r
    · subst he
      rw [hself] at hm'
      exact h.further r' hmem m' (by rw [hm]; exact List.mem_cons_of_mem _ hm')
    · rw [hpend r' he] at hm'
      exact h.further r' hr' m' hm'
  case held =>
    intro i r' hi hr'
    rw [harr] at hr'
    show ∃ slot'', (s.buf.reqs.set (j % n) slot')[i % n]? = some slot'' ∧
      Holds (reqs r') slot'' (Function.update s.pending r rest r')
    change s.fetched.length ≤ i at hi
    have hilt : i < s.arrived.length := (List.getElem?_eq_some_iff.mp hr').1
    by_cases hij : i = j
    · subst hij
      cases hr.symm.trans hr'
      obtain ⟨old, hold, -⟩ := h.held i r hi hr
      refine ⟨slot', ?_, by rw [hself]; exact hholds⟩
      rw [List.getElem?_set_self (List.getElem?_eq_some_iff.mp hold).1]
    · have hne : j % n ≠ i % n := by
        intro he
        exact hij (turn_inj (g := s.fetched.length) hj (by omega) hi (by omega) he).symm
      have hrne : r' ≠ r := by
        rintro rfl
        exact hij ((List.getElem?_inj hilt h.once).mp (hr'.trans hr.symm))
      rw [List.getElem?_set_ne hne, hpend r' hrne]
      exact h.held i r' hi hr'
  case order =>
    rw [harr]
    exact h.order

/-- A handled message keeps the accounts. -/
theorem Accounted.deliver (hseq : Function.Injective fun r => (reqs r).seq)
    (h : Accounted reqs n s) {env : Env} {r : ι} {m : RequestMsg} {rest : List RequestMsg}
    {buf : ReqBuffer} (hm : s.pending r = m :: rest)
    (hb : handleMsg env s.buf (received m) = .ok (0, buf)) :
    Accounted reqs n (s.handled r m rest buf) := by
  have hhandled := handleMsg_ok hb
  by_cases hr : r ∈ s.arrived
  · obtain ⟨hmulti, hoff, hmseq⟩ := h.further r hr m (by rw [hm]; exact List.mem_cons_self ..)
    cases hhandled with
    | single h0 => exact absurd h0 hmulti
    | first _ h0 => exact absurd h0 hoff
    | @next i req old data src last _ _ h1 h2 hreq hrseq hold hsrc hdata hlast _ =>
        obtain ⟨j, hj, rfl, hr', hholds⟩ := h.slot_of_seq hseq h1 h2 hreq (hrseq.trans hmseq)
        rw [hm] at hholds
        obtain ⟨hlast', hholds'⟩ := hholds.next hold hsrc hdata hlast
        refine h.part hj hr' hm hholds' ?_
        by_cases hrest : rest = []
        · rw [if_pos hrest, if_pos (hlast'.mpr hrest)]
        · rw [if_neg hrest, if_neg (fun hl => hrest (hlast'.mp hl)), Nat.add_zero]
  · have hmsgs := h.fresh r hr
    rw [hm] at hmsgs
    rcases requestMessages_cases (reqs r) with ⟨m', he, hsingle⟩ | ⟨m', ms, he, hne, hcont⟩
    · obtain ⟨rfl, rfl⟩ := List.cons.inj (hmsgs.trans he)
      cases hhandled with
      | single _ hroom hlen hdata =>
          exact h.arrival hr hm hroom (Holds.single hsingle hlen hdata) (Or.inl hsingle.multipart)
            (fun m' hm' => nomatch hm') rfl
      | first h0 => exact absurd hsingle.multipart h0
      | next h0 => exact absurd hsingle.multipart h0
    · obtain ⟨rfl, rfl⟩ := List.cons.inj (hmsgs.trans he)
      cases hhandled with
      | single h0 => exact absurd h0 hcont.1.multipart
      | first _ h0 hroom hlen hsrc _ hdata =>
          refine h.arrival hr hm hroom (Holds.first hne hcont hlen hsrc hdata)
            (Or.inr hcont.1.offset) (hcont.2.further rest ?_) ?_
          · rw [Nat.zero_add]
            exact hcont.1.pos
          · rw [if_neg hne]
            rfl
      | next _ h0 => exact absurd hcont.1.offset h0

end Accounting

end LibfsSpecs
