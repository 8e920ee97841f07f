import Libfs.RingAccounting
import Mathlib.Data.Bool.Basic

/-! # The slot the worker works on

    A fetch gives the worker a pointer into the ring and posts the capacity
    semaphore at once, so the slot counts as free from the fetch on.  It is
    the last of the free slots the receiver comes to: as long as another one
    is free, the receiver leaves it alone; when it is the only one, the next
    request is written over the one the worker has in hand. -/

namespace LibfsSpecs

open LibfsHeap LibfsStdio LibfsCommon LibfsBuffer LibfsRun

/-! ## Receiver and worker -/

/-- Where the worker is in its round; the number is the pointer it holds. -/
inductive Worker where
  | idle
  | given (k : Nat)
  | served (k : Nat)
deriving DecidableEq

/-- The slot whose pointer the worker holds. -/
def Worker.held : Worker → Option Nat
  | .idle => none
  | .given k => some k
  | .served k => some k

variable {ι : Type}

/-- The ring, the worker, the slots as the handlers saw them and the slots as
    they were when they were freed. -/
structure Service (ι : Type) where
  ring : Ring ι
  worker : Worker
  executed : List ServiceReq
  freed : List ServiceReq

/-- The events of the ring, and the steps of the worker on the slot it was
    given. -/
inductive ServiceEvent (ι : Type) where
  | deliver (env : Env) (r : ι)
  | fetch
  | skip
  | execute
  | complete

/-- The service as `main` starts the two threads. -/
def Service.init (reqs : ι → ClientReq) (buf : ReqBuffer) : Service ι :=
  ⟨Ring.init reqs buf, .idle, [], []⟩

/-- A slot the worker does not skip. -/
def isReady (slot : ServiceReq) : Bool := slot.reqStatus = .ready

section Steps

variable [DecidableEq ι]

/-- A slot that is neither ready nor in progress makes `operate` exit. -/
inductive ServiceStep : Service ι → ServiceEvent ι → Service ι → Prop where
  | deliver {s : Service ι} {env : Env} {r : ι} {ring : Ring ι}
      (h : RingStep s.ring (.deliver env r) ring) :
      ServiceStep s (.deliver env r) { s with ring := ring }
  | fetch {s : Service ι} {k : Nat} {slot : ServiceReq} {buf : ReqBuffer}
      (hw : s.worker = .idle) (hb : getServiceReq s.ring.buf = .ok (k, buf))
      (hs : s.ring.buf.slot k = .ok slot) :
      ServiceStep s .fetch { s with
        ring := { s.ring with buf := buf, fetched := s.ring.fetched ++ [slot] }
        worker := .given k }
  | skip {s : Service ι} {k : Nat} {slot : ServiceReq} (hw : s.worker = .given k)
      (hs : s.ring.buf.slot k = .ok slot) (hp : slot.reqStatus = .inProgress) :
      ServiceStep s .skip { s with worker := .idle }
  | execute {s : Service ι} {k : Nat} {slot : ServiceReq} (hw : s.worker = .given k)
      (hs : s.ring.buf.slot k = .ok slot) (hp : slot.reqStatus = .ready) :
      ServiceStep s .execute { s with worker := .served k, executed := s.executed ++ [slot] }
  | complete {s : Service ι} {k : Nat} {slot : ServiceReq} {buf : ReqBuffer}
      (hw : s.worker = .served k) (hs : s.ring.buf.slot k = .ok slot)
      (hb : completeReq s.ring.buf k = .ok buf) :
      ServiceStep s .complete { s with
        ring := { s.ring with buf := buf }
        worker := .idle
        freed := s.freed ++ [slot] }

/-! ## Steps that are computed -/

/-- The slot the worker was given and has not served. -/
def Worker.slotGiven : Worker → Option Nat
  | .given k => some k
  | _ => none

/-- The slot the worker has served. -/
def Worker.slotServed : Worker → Option Nat
  | .served k => some k
  | _ => none

/-- One step of the service, if it is possible. -/
def Service.step (s : Service ι) : ServiceEvent ι → Option (Service ι)
  | .deliver env r => do
      let ring ← s.ring.step (.deliver env r)
      some { s with ring := ring }
  | .fetch => do
      guard (s.worker = .idle)
      let p ← (getServiceReq s.ring.buf).toOption
      let slot ← (s.ring.buf.slot p.1).toOption
      some { s with
        ring := { s.ring with buf := p.2, fetched := s.ring.fetched ++ [slot] }
        worker := .given p.1 }
  | .skip => do
      let k ← s.worker.slotGiven
      let slot ← (s.ring.buf.slot k).toOption
      guard (slot.reqStatus = .inProgress)
      some { s with worker := .idle }
  | .execute => do
      let k ← s.worker.slotGiven
      let slot ← (s.ring.buf.slot k).toOption
      guard (slot.reqStatus = .ready)
      some { s with worker := .served k, executed := s.executed ++ [slot] }
  | .complete => do
      let k ← s.worker.slotServed
      let slot ← (s.ring.buf.slot k).toOption
      let buf ← (completeReq s.ring.buf k).toOption
      some { s with
        ring := { s.ring with buf := buf }
        worker := .idle
        freed := s.freed ++ [slot] }

theorem Worker.given_of_some {w : Worker} {k : Nat} (h : w.slotGiven = some k) : w = .given k := by
  cases w with
  | given k' => rw [Option.some.inj h]
  | idle => cases h
  | served k' => cases h

theorem Worker.served_of_some {w : Worker} {k : Nat} (h : w.slotServed = some k) :
    w = .served k := by
  cases w with
  | served k' => rw [Option.some.inj h]
  | idle => cases h
  | given k' => cases h

/-- What is computed is a step. -/
theorem Service.step_some {s s' : Service ι} {e : ServiceEvent ι} (h : s.step e = some s') :
    ServiceStep s e s' := by
  cases e with
  | deliver env r =>
      obtain ⟨ring, hring, h⟩ := Option.bind_eq_some_iff.mp h
      cases h
      exact .deliver (Ring.step_some hring)
  | fetch =>
      obtain ⟨_, hw, h⟩ := Option.bind_eq_some_iff.mp h
      obtain ⟨⟨k, buf⟩, hb, h⟩ := Option.bind_eq_some_iff.mp h
      obtain ⟨slot, hs, h⟩ := Option.bind_eq_some_iff.mp h
      cases h
      exact .fetch (of_guard hw) (toOption_some hb) (toOption_some hs)
  | skip =>
      obtain ⟨k, hw, h⟩ := Option.bind_eq_some_iff.mp h
      obtain ⟨slot, hs, h⟩ := Option.bind_eq_some_iff.mp h
      obtain ⟨_, hp, h⟩ := Option.bind_eq_some_iff.mp h
      cases h
      exact .skip (Worker.given_of_some hw) (toOption_some hs) (of_guard hp)
  | execute =>
      obtain ⟨k, hw, h⟩ := Option.bind_eq_some_iff.mp h
      obtain ⟨slot, hs, h⟩ := Option.bind_eq_some_iff.mp h
      obtain ⟨_, hp, h⟩ := Option.bind_eq_some_iff.mp h
      cases h
      exact .execute (Worker.given_of_some hw) (toOption_some hs) (of_guard hp)
  | complete =>
      obtain ⟨k, hw, h⟩ := Option.bind_eq_some_iff.mp h
      obtain ⟨slot, hs, h⟩ := Option.bind_eq_some_iff.mp h
      obtain ⟨buf, hb, h⟩ := Option.bind_eq_some_iff.mp h
      cases h
      exact .complete (Worker.served_of_some hw) (toOption_some hs) (toOption_some hb)

end Steps

/-- While the worker holds a slot, a message that takes a slot is not handled
    when only one is free: `empty` is then one, modulo the size of the ring. -/
def LeavesRoom (s : Service ι) : ServiceEvent ι → Prop
  | .deliver _ r => ∀ m rest, s.ring.pending r = m :: rest → (m.multipart = 0 ∨ m.dataOffset = 0) →
      s.worker ≠ .idle → s.ring.buf.empty % s.ring.buf.size ≠ 1 % s.ring.buf.size
  | _ => True

/-! ## The indices go round together -/

/-- The read index is as many slots ahead of the write index as are free. -/
structure Turns (n : Nat) (buf : ReqBuffer) : Prop where
  size : buf.size = n
  length : buf.reqs.length = n
  write : buf.wrIdx < n
  turn : (buf.wrIdx + buf.empty) % n = buf.rdIdx

theorem Turns.read {n : Nat} {buf : ReqBuffer} (h : Turns n buf) : buf.rdIdx < n := by
  rw [← h.turn]
  exact Nat.mod_lt _ (by have := h.write; omega)

theorem turns_create {n : Nat} {buf : ReqBuffer} (hb : reqBufferCreate n = some buf) :
    Turns n buf := by
  unfold reqBufferCreate at hb
  by_cases hn : n > 0
  · rw [if_pos hn] at hb
    cases hb
    refine ⟨rfl, List.length_replicate, hn, ?_⟩
    show (0 + n) % n = 0
    rw [Nat.zero_add, Nat.mod_self]
  · rw [if_neg hn] at hb
    exact nomatch hb

theorem Turns.push {n : Nat} {buf : ReqBuffer} (h : Turns n buf) (hroom : HasRoom buf)
    (req : ServiceReq) (full : Nat) : Turns n { pushReq buf req with full := full } := by
  have hpos := hroom.empty
  have hlt := h.write
  refine ⟨h.size, List.length_set.trans h.length, ?_, ?_⟩
  · show (buf.wrIdx + 1) % buf.size < n
    rw [h.size]
    exact Nat.mod_lt _ (by omega)
  · show ((buf.wrIdx + 1) % buf.size + (buf.empty - 1)) % n = buf.rdIdx
    rw [h.size, Nat.mod_add_mod, show buf.wrIdx + 1 + (buf.empty - 1) = buf.wrIdx + buf.empty by omega]
    exact h.turn

theorem Turns.handled {n : Nat} {rbuf rbuf' : ReqBuffer} {msg : RequestMsg} (h : Turns n rbuf)
    (hm : Handled rbuf msg rbuf') : Turns n rbuf' := by
  cases hm with
  | single _ hroom => exact h.push hroom _ _
  | first _ _ hroom => exact h.push hroom _ rbuf.full
  | next => exact ⟨h.size, List.length_set.trans h.length, h.write, h.turn⟩

theorem Turns.fetched {n : Nat} {rbuf rbuf' : ReqBuffer} {k : Nat} (h : Turns n rbuf)
    (hb : getServiceReq rbuf = .ok (k, rbuf')) : Turns n rbuf' := by
  obtain ⟨-, -, -, rfl⟩ := getServiceReq_ok hb
  refine ⟨h.size, h.length, h.write, ?_⟩
  show (rbuf.wrIdx + (rbuf.empty + 1)) % n = (rbuf.rdIdx + 1) % rbuf.size
  rw [h.size, ← h.turn, Nat.mod_add_mod, Nat.add_assoc]

/-- The write index stands at the slot before the read index exactly when that
    is the only free one. -/
theorem Turns.write_eq_iff {n k : Nat} {buf : ReqBuffer} (h : Turns n buf) (hk : k < n)
    (hnext : (k + 1) % n = buf.rdIdx) : buf.wrIdx = k ↔ buf.empty % n = 1 % n := by
  have hturn := h.turn
  rw [← hnext] at hturn
  constructor
  · intro he
    rw [he] at hturn
    exact Nat.ModEq.add_left_cancel' k hturn
  · intro he
    have hmod : buf.wrIdx + buf.empty ≡ k + 1 [MOD n] := hturn
    have hwk : buf.wrIdx ≡ k [MOD n] := Nat.ModEq.add_right_cancel he hmod
    exact Nat.ModEq.eq_of_lt_of_lt hwk h.write hk

/-- Of the slots a message is written to, only the one at the write index can
    be the one before the read index. -/
theorem Handled.leaves {n k : Nat} {rbuf rbuf' : ReqBuffer} {msg : RequestMsg}
    (hm : Handled rbuf msg rbuf') (h : Turns n rbuf) (hk : k < n) (hnext : (k + 1) % n = rbuf.rdIdx)
    (hspare : (msg.multipart = 0 ∨ msg.dataOffset = 0) → rbuf.wrIdx ≠ k) :
    rbuf'.reqs[k]? = rbuf.reqs[k]? := by
  cases hm with
  | single h0 => exact List.getElem?_set_ne (hspare (Or.inl h0))
  | first _ h0 => exact List.getElem?_set_ne (hspare (Or.inr h0))
  | @next i _ _ _ _ _ _ _ h1 h2 =>
      -- a further part goes to a slot from the read index on
      refine List.getElem?_set_ne ?_
      rintro rfl
      have hlt := h.write
      rcases Nat.lt_or_ge (i + 1) n with hlow | hhigh
      · rw [Nat.mod_eq_of_lt hlow] at hnext
        omega
      · omega

/-! ## What the worker has in hand -/

/-- The slot the worker holds is as it was fetched; every ready slot that was
    fetched before was executed as it was fetched, and then freed. -/
structure Owns (s : Service ι) : Prop where
  idle : s.worker = .idle →
    s.executed = s.ring.fetched.filter isReady ∧ s.freed = s.executed
  given : ∀ k, s.worker = .given k → ∃ before slot, s.ring.fetched = before ++ [slot] ∧
    s.ring.buf.reqs[k]? = some slot ∧ s.executed = before.filter isReady ∧
    s.freed = s.executed
  served : ∀ k, s.worker = .served k → ∃ slot, s.ring.fetched.getLast? = some slot ∧
    s.ring.buf.reqs[k]? = some slot ∧ slot.reqStatus = .ready ∧
    s.executed = s.ring.fetched.filter isReady ∧ s.executed = s.freed ++ [slot]

/-- The invariant of guarded runs. -/
structure KeepsHeld (n : Nat) (s : Service ι) : Prop where
  turns : Turns n s.ring.buf
  next : ∀ k, s.worker.held = some k → k < n ∧ (k + 1) % n = s.ring.buf.rdIdx
  owns : Owns s

theorem keepsHeld_init {reqs : ι → ClientReq} {n : Nat} {buf : ReqBuffer}
    (hb : reqBufferCreate n = some buf) : KeepsHeld n (Service.init reqs buf) where
  turns := turns_create hb
  next := by
    intro k hk
    exact nomatch hk
  owns := by
    refine ⟨fun _ => ⟨rfl, rfl⟩, ?_, ?_⟩
    · intro k hk
      exact nomatch hk
    · intro k hk
      exact nomatch hk

/-- What the guard comes to: the slot the worker holds is not the one at the
    write index. -/
theorem KeepsHeld.spare {n : Nat} {s : Service ι} (h : KeepsHeld n s) {env : Env} {r : ι}
    (hg : LeavesRoom s (.deliver env r)) {m : RequestMsg} {rest : List RequestMsg}
    (hm : s.ring.pending r = m :: rest) (htake : m.multipart = 0 ∨ m.dataOffset = 0) {k : Nat}
    (hk : s.worker.held = some k) : s.ring.buf.wrIdx ≠ k := by
  intro he
  obtain ⟨hlt, hnext⟩ := h.next k hk
  have hbusy : s.worker ≠ .idle := by
    intro hidle
    rw [hidle] at hk
    exact nomatch hk
  have hone := (h.turns.write_eq_iff hlt hnext).mp he
  have hnot := hg m rest hm htake hbusy
  rw [h.turns.size] at hnot
  exact hnot hone

/-- A fetch gives the worker a slot, and all that was ready before is done. -/
theorem KeepsHeld.fetch {n : Nat} {s : Service ι} (h : KeepsHeld n s) (hw : s.worker = .idle)
    {k : Nat} {slot : ServiceReq} {buf : ReqBuffer} (hb : getServiceReq s.ring.buf = .ok (k, buf))
    (hs : s.ring.buf.slot k = .ok slot) :
    KeepsHeld n { s with
      ring := { s.ring with buf := buf, fetched := s.ring.fetched ++ [slot] }
      worker := .given k } := by
  have hturns := h.turns.fetched hb
  obtain ⟨rfl, -, -, rfl⟩ := getServiceReq_ok hb
  obtain ⟨hexec, hfreed⟩ := h.owns.idle hw
  constructor
  case turns => exact hturns
  case next =>
    intro k hk
    cases hk
    refine ⟨h.turns.read, ?_⟩
    show _ = (s.ring.buf.rdIdx + 1) % s.ring.buf.size
    rw [h.turns.size]
  case owns =>
    constructor
    case idle =>
      intro hidle
      exact nomatch hidle
    case given =>
      intro k hk
      cases hk
      exact ⟨s.ring.fetched, slot, rfl, slot_ok.mp hs, hexec, hfreed⟩
    case served =>
      intro k hk
      exact nomatch hk

/-- A slot in progress is dropped. -/
theorem KeepsHeld.skip {n : Nat} {s : Service ι} (h : KeepsHeld n s) {k : Nat} {slot : ServiceReq}
    (hw : s.worker = .given k) (hs : s.ring.buf.slot k = .ok slot)
    (hp : slot.reqStatus = .inProgress) : KeepsHeld n { s with worker := .idle } := by
  obtain ⟨before, slot', hfetched, hslot, hexec, hfreed⟩ := h.owns.given k hw
  cases (slot_ok.mp hs).symm.trans hslot
  constructor
  case turns => exact h.turns
  case next =>
    intro k hk
    exact nomatch hk
  case owns =>
    constructor
    case idle =>
      intro _
      refine ⟨?_, hfreed⟩
      have hnot : isReady slot = false := by
        unfold isReady
        rw [hp]
        rfl
      show s.executed = s.ring.fetched.filter isReady
      rw [hfetched, List.filter_append, List.filter_singleton, hnot, hexec]
      exact (List.append_nil _).symm
    case given =>
      intro k hk
      exact nomatch hk
    case served =>
      intro k hk
      exact nomatch hk

/-- The handler sees the slot as it was fetched. -/
theorem KeepsHeld.execute {n : Nat} {s : Service ι} (h : KeepsHeld n s) {k : Nat}
    {slot : ServiceReq} (hw : s.worker = .given k) (hs : s.ring.buf.slot k = .ok slot)
    (hp : slot.reqStatus = .ready) :
    KeepsHeld n { s with worker := .served k, executed := s.executed ++ [slot] } := by
  obtain ⟨before, slot', hfetched, hslot, hexec, hfreed⟩ := h.owns.given k hw
  cases (slot_ok.mp hs).symm.trans hslot
  constructor
  case turns => exact h.turns
  case next =>
    intro j hj
    cases hj
    exact h.next k (by rw [hw]; rfl)
  case owns =>
    constructor
    case idle =>
      intro hidle
      exact nomatch hidle
    case given =>
      intro j hj
      exact nomatch hj
    case served =>
      intro j hj
      cases hj
      have hready : isReady slot = true := by
        unfold isReady
        rw [hp]
        rfl
      refine ⟨slot, ?_, hslot, hp, ?_, ?_⟩
      · show s.ring.fetched.getLast? = some slot
        rw [hfetched, List.getLast?_concat]
      · show s.executed ++ [slot] = s.ring.fetched.filter isReady
        rw [hfetched, List.filter_append, List.filter_singleton, hready, hexec]
        rfl
      · show s.executed ++ [slot] = s.freed ++ [slot]
        rw [hfreed]

/-- The slot that is freed is the one that was executed. -/
theorem KeepsHeld.complete {n : Nat} {s : Service ι} (h : KeepsHeld n s) {k : Nat}
    {slot : ServiceReq} {buf : ReqBuffer} (hw : s.worker = .served k)
    (hs : s.ring.buf.slot k = .ok slot) (hb : completeReq s.ring.buf k = .ok buf) :
    KeepsHeld n { s with
      ring := { s.ring with buf := buf }
      worker := .idle
      freed := s.freed ++ [slot] } := by
  obtain ⟨slot', -, hslot, -, hexec, hfreed⟩ := h.owns.served k hw
  cases (slot_ok.mp hs).symm.trans hslot
  unfold completeReq at hb
  obtain ⟨req, -, hb⟩ := bind_ok_iff.mp hb
  cases hb
  constructor
  case turns => exact ⟨h.turns.size, List.length_set.trans h.turns.length, h.turns.write, h.turns.turn⟩
  case next =>
    intro j hj
    exact nomatch hj
  case owns =>
    constructor
    case idle =>
      intro _
      exact ⟨hexec, hfreed.symm⟩
    case given =>
      intro j hj
      exact nomatch hj
    case served =>
      intro j hj
      exact nomatch hj

section Runs

variable [DecidableEq ι]

/-- A handled message leaves the slot the worker holds as it is. -/
theorem KeepsHeld.keeps {n : Nat} {s s' : Service ι} (h : KeepsHeld n s) {env : Env} {r : ι}
    (hstep : guarded LeavesRoom ServiceStep s (.deliver env r) s') {k : Nat}
    (hk : s.worker.held = some k) : s'.ring.buf.reqs[k]? = s.ring.buf.reqs[k]? := by
  obtain ⟨hg, hstep⟩ := hstep
  cases hstep with
  | deliver hring =>
      cases hring with
      | deliver hm hb =>
          obtain ⟨hlt, hnext⟩ := h.next k hk
          exact (handleMsg_ok hb).leaves h.turns hlt hnext fun htake => h.spare hg hm htake hk

/-- A message keeps the worker's claim on its slot. -/
theorem KeepsHeld.deliver {n : Nat} {s s' : Service ι} (h : KeepsHeld n s) {env : Env} {r : ι}
    (hstep : guarded LeavesRoom ServiceStep s (.deliver env r) s') : KeepsHeld n s' := by
  have hkeep := fun k hk => h.keeps hstep (k := k) hk
  obtain ⟨hg, hstep⟩ := hstep
  cases hstep with
  | deliver hring =>
      cases hring with
      | @deliver _ _ m rest buf hm hb =>
          have hhandled := handleMsg_ok hb
          have hread : buf.rdIdx = s.ring.buf.rdIdx := by
            cases hhandled with
            | single => rfl
            | first => rfl
            | next => rfl
          constructor
          case turns => exact h.turns.handled hhandled
          case next =>
            intro k hk
            show k < n ∧ (k + 1) % n = buf.rdIdx
            rw [hread]
            exact h.next k hk
          case owns =>
            constructor
            case idle => exact h.owns.idle
            case given =>
              intro k hk
              obtain ⟨before, slot, hfetched, hslot, hexec, hfreed⟩ := h.owns.given k hk
              exact ⟨before, slot, hfetched,
                (hkeep k (by rw [show s.worker = .given k from hk]; rfl)).trans hslot, hexec, hfreed⟩
            case served =>
              intro k hk
              obtain ⟨slot, hlast, hslot, hrest⟩ := h.owns.served k hk
              exact ⟨slot, hlast,
                (hkeep k (by rw [show s.worker = .served k from hk]; rfl)).trans hslot, hrest⟩

theorem keepsHeld_of_run {reqs : ι → ClientReq} {n : Nat} {buf : ReqBuffer}
    (hb : reqBufferCreate n = some buf) {es : List (ServiceEvent ι)} {s : Service ι}
    (hr : Run (guarded LeavesRoom ServiceStep) (Service.init reqs buf) es s) : KeepsHeld n s := by
  refine hr.invariant (KeepsHeld n) (keepsHeld_init hb) ?_
  rintro s e s' h ⟨hg, hstep⟩
  cases hstep with
  | deliver hring => exact h.deliver ⟨hg, .deliver hring⟩
  | fetch hw hb hs => exact h.fetch hw hb hs
  | skip hw hs hp => exact h.skip hw hs hp
  | execute hw hs hp => exact h.execute hw hs hp
  | complete hw hs hb => exact h.complete hw hs hb

/-- In a run in which no message takes the last free slot from a busy worker,
    no message is written to the slot the worker holds, the handler sees every
    ready slot as it was fetched, and only slots that were executed are freed.
    A message that does take the last free slot is written over the one the
    worker holds. -/
theorem held_slot_kept {reqs : ι → ClientReq} {n : Nat} {buf : ReqBuffer}
    (hb : reqBufferCreate n = some buf) {es : List (ServiceEvent ι)} {s : Service ι}
    (hr : Run (guarded LeavesRoom ServiceStep) (Service.init reqs buf) es s) :
    Owns s ∧
      (∀ k, s.worker.held = some k → ∀ env r s',
        guarded LeavesRoom ServiceStep s (.deliver env r) s' →
          s'.ring.buf.reqs[k]? = s.ring.buf.reqs[k]?) ∧
      ∀ k, s.worker.held = some k → ∀ env r s', ServiceStep s (.deliver env r) s' →
        ¬ LeavesRoom s (.deliver env r) →
          ∃ req, s'.ring.buf.reqs = s.ring.buf.reqs.set k req := by
  have h := keepsHeld_of_run hb hr
  refine ⟨h.owns, ?_, ?_⟩
  · intro k hk env r s' hstep
    exact h.keeps hstep hk
  · intro k hk env r s' hstep hnot
    cases hstep with
    | deliver hring =>
        cases hring with
        | @deliver _ _ m rest buf' hm hb' =>
            have hguard : (m.multipart = 0 ∨ m.dataOffset = 0) ∧
                s.ring.buf.empty % s.ring.buf.size = 1 % s.ring.buf.size := by
              by_contra hno
              refine hnot ?_
              intro m' rest' hm' htake _ hone
              obtain ⟨rfl, -⟩ := List.cons.inj (hm.symm.trans hm')
              exact hno ⟨htake, hone⟩
            obtain ⟨htake, hone⟩ := hguard
            obtain ⟨hlt, hnext⟩ := h.next k hk
            rw [h.turns.size] at hone
            obtain ⟨-, req, hreqs⟩ := (handleMsg_ok hb').enqueued htake
            refine ⟨req, ?_⟩
            show buf'.reqs = _
            rw [hreqs, (h.turns.write_eq_iff hlt hnext).mpr hone]

/-- A fetch of the ring, made by an idle worker. -/
theorem ServiceStep.of_fetch {s : Service ι} {ring : Ring ι} (hw : s.worker = .idle)
    (h : RingStep s.ring .fetch ring) :
    ∃ k slot, ring.buf.reqs[k]? = some slot ∧
      ServiceStep s .fetch { s with ring := ring, worker := .given k } := by
  cases h with
  | @fetch k slot buf hb hs =>
      have hreqs : buf.reqs = s.ring.buf.reqs := by
        obtain ⟨-, -, -, rfl⟩ := getServiceReq_ok hb
        rfl
      refine ⟨k, slot, ?_, .fetch hw hb hs⟩
      show buf.reqs[k]? = some slot
      rw [hreqs]
      exact slot_ok.mp hs

end Runs

/-- The test for messages that leave the worker its slot. -/
def leavesRoom (s : Service ι) : ServiceEvent ι → Bool
  | .deliver _ r =>
      match s.ring.pending r with
      | m :: _ => decide ((m.multipart = 0 ∨ m.dataOffset = 0) → s.worker ≠ .idle →
          s.ring.buf.empty % s.ring.buf.size ≠ 1 % s.ring.buf.size)
      | [] => true
  | _ => true

theorem leavesRoom_sound {s : Service ι} {e : ServiceEvent ι} (h : leavesRoom s e = true) :
    LeavesRoom s e := by
  cases e with
  | deliver env r =>
      intro m rest hm
      unfold leavesRoom at h
      simp only [hm] at h
      exact of_decide_eq_true h
  | _ => trivial

/-- In a ring of two slots a request comes in while the worker holds the slot
    of another, which took two messages. -/
theorem held_slot_twoClients : ∃ s, s.worker = .given 0 ∧ s.ring.arrived = [true, false] ∧
    Owns (ι := Bool) s := by
  let buf : ReqBuffer := ⟨false, 2, 0, 0, 0, 2, [zeroReq, zeroReq]⟩
  let env : Env := ⟨fun _ => ⟨0, 0⟩, fun _ => 0⟩
  have hplay : (play (checked leavesRoom Service.step) (Service.init twoClients buf)
      [.deliver env true, .deliver env true, .fetch, .deliver env false]).map
        (fun s => (s.worker, s.ring.arrived)) = some (.given 0, [true, false]) := by decide +kernel
  obtain ⟨s, hs, hstate⟩ := Option.map_eq_some_iff.mp hplay
  obtain ⟨hw, harrived⟩ := Prod.mk.inj hstate
  have hrun : Run (guarded LeavesRoom ServiceStep) (Service.init twoClients buf) _ s :=
    play_run (fun _ _ _ h =>
      ⟨leavesRoom_sound (checked_some h).1, Service.step_some (checked_some h).2⟩) hs
  exact ⟨s, hw, harrived, (held_slot_kept (n := 2) rfl hrun).1⟩

/-- Two clients with a request of one message each. -/
def twoSingles : Bool → ClientReq
  | true => ⟨.create, 1, [65], oneByte_short⟩
  | false => ⟨.create, 2, [66], by decide⟩

/-- In a ring of one slot the second request is written over the one the
    worker was just given. -/
theorem held_slot_overwritten : ¬ ∀ (reqs : Bool → ClientReq) (n : Nat) (buf : ReqBuffer)
    (es : List (ServiceEvent Bool)) (s : Service Bool), (Function.Injective fun r => (reqs r).seq) →
    reqBufferCreate n = some buf → Run ServiceStep (Service.init reqs buf) es s →
    ∀ k, s.worker.held = some k → ∀ env r s', ServiceStep s (.deliver env r) s' →
      s'.ring.buf.reqs[k]? = s.ring.buf.reqs[k]? := by
  intro hclaim
  let buf : ReqBuffer := ⟨false, 1, 0, 0, 0, 1, [zeroReq]⟩
  let env : Env := ⟨fun _ => ⟨0, 0⟩, fun _ => 0⟩
  have hafter : (play Ring.step (Ring.init twoSingles buf)
      [.deliver env true, .fetch, .deliver env false]).map
        (fun s => s.buf.reqs.map ServiceReq.seq) = some [2] := by decide +kernel
  have hbefore : (play Ring.step (Ring.init twoSingles buf) [.deliver env true, .fetch]).map
      (fun s => s.buf.reqs.map ServiceReq.seq) = some [1] := by decide +kernel
  obtain ⟨ring, hplay, hseqs⟩ := Option.map_eq_some_iff.mp hafter
  obtain ⟨ring₁, h1, hplay⟩ := Option.bind_eq_some_iff.mp hplay
  obtain ⟨ring₂, h2, hplay⟩ := Option.bind_eq_some_iff.mp hplay
  obtain ⟨ring₃, h3, h4⟩ := Option.bind_eq_some_iff.mp hplay
  cases h4
  have hseqs₂ : ring₂.buf.reqs.map ServiceReq.seq = [1] := by
    have hplay₂ : play Ring.step (Ring.init twoSingles buf) [.deliver env true, .fetch] = some ring₂ :=
      Option.bind_eq_some_iff.mpr ⟨ring₁, h1, Option.bind_eq_some_iff.mpr ⟨ring₂, h2, rfl⟩⟩
    rw [hplay₂] at hbefore
    exact Option.some.inj hbefore
  have hfirst : ServiceStep (Service.init twoSingles buf) _ _ := .deliver (Ring.step_some h1)
  obtain ⟨k, slot, hslot, hsecond⟩ := ServiceStep.of_fetch (s := ⟨ring₁, .idle, [], []⟩) rfl
    (Ring.step_some h2)
  have hseq : Function.Injective fun r => (twoSingles r).seq :=
    Bool.injective_iff.mpr (by decide)
  have hkept := hclaim twoSingles 1 buf _ _ hseq rfl (.next (.next .start hfirst) hsecond) k rfl
    env false _ (.deliver (Ring.step_some h3))
  have hmap : (ring.buf.reqs.map ServiceReq.seq)[k]? = (ring₂.buf.reqs.map ServiceReq.seq)[k]? := by
    rw [List.getElem?_map, List.getElem?_map]
    exact congrArg (Option.map ServiceReq.seq) hkept
  have hlt : k < (ring₂.buf.reqs.map ServiceReq.seq).length := by
    rw [List.length_map]
    exact (List.getElem?_eq_some_iff.mp hslot).1
  rw [hseqs₂] at hlt hmap
  rw [hseqs] at hmap
  obtain rfl : k = 0 := Nat.lt_one_iff.mp hlt
  exact absurd hmap (by decide)

end LibfsSpecs
