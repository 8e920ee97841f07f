import Libfs.Reassembly

/-! # Parts that reach behind the end of their request

    `handle_msg` copies a part before it looks at any size, and then compares
    the sum of the parts, not the part.  A part that does not fit is refused
    with nothing changed only where its request is not found; in a buffer
    whose slots have the memory they say, every other one is copied over the
    end of it. -/

namespace LibfsSpecs

open LibfsHeap LibfsStdio LibfsCommon LibfsBuffer LibfsRun

/-! ## Calls that do not return zero -/

/-- The search comes to no slot with the number. -/
theorem findSeq_none {rbuf : ReqBuffer} {seq : Int} (n : Nat) : ∀ i,
    findSeq rbuf seq n i = .ok none ↔
      ∀ k, i ≤ k → k < i + n → ∃ req, rbuf.reqs[k]? = some req ∧ req.seq ≠ seq := by
  induction n with
  | zero =>
      intro i
      exact iff_of_true rfl fun k h1 h2 => absurd h2 (Nat.not_lt.mpr h1)
  | succ n ih =>
      intro i
      rw [findSeq]
      constructor
      · intro h
        obtain ⟨req, hreq, h⟩ := bind_ok_iff.mp h
        by_cases hseq : req.seq = seq
        · rw [if_pos hseq] at h
          cases h
        · rw [if_neg hseq] at h
          intro k h1 h2
          rcases Nat.lt_or_eq_of_le h1 with hlater | rfl
          · exact (ih (i + 1)).mp h k hlater (by omega)
          · exact ⟨req, slot_ok.mp hreq, hseq⟩
      · intro hall
        obtain ⟨req, hreq, hseq⟩ := hall i (Nat.le_refl i) (by omega)
        rw [slot_ok.mpr hreq, ok_bind, if_neg hseq]
        exact (ih (i + 1)).mpr fun k h1 h2 => hall k (by omega) (by omega)

section Calls

variable {env : Env} {rbuf rbuf' : ReqBuffer} {msg : RequestMsg} {r : Int}

/-- The exit for corrupted data keeps the mutex, so a call that has freed it
    did not find the request. -/
theorem Refused.unfound_of_free (h : Refused rbuf msg r rbuf') (hfree : rbuf'.lock = false) :
    findSeq rbuf msg.seq (rbuf.wrIdx - rbuf.rdIdx) rbuf.rdIdx = .ok none := by
  cases h with
  | unfound hnone => exact hnone
  | corrupted => exact nomatch hfree

end Calls

/-! ## Memory of the size that was asked for -/

/-- The memory of every slot has the size the slot gives. -/
def SlotsFit (rbuf : ReqBuffer) : Prop :=
  ∀ req ∈ rbuf.reqs, ∀ data, req.data = some data → data.length = req.dataSize

/-- A slot that fits may be put anywhere. -/
theorem SlotsFit.set {rbuf rbuf' : ReqBuffer} (h : SlotsFit rbuf) {i : Nat} {req : ServiceReq}
    (hreqs : rbuf'.reqs = rbuf.reqs.set i req)
    (hreq : ∀ data, req.data = some data → data.length = req.dataSize) : SlotsFit rbuf' := by
  intro slot hslot
  rw [hreqs] at hslot
  rcases List.mem_or_eq_of_mem_set hslot with hold | rfl
  · exact h slot hold
  · exact hreq

/-- Anything that may happen to the buffer: a message from any process, a
    fetch, the end of a round of the worker. -/
inductive BufferEvent where
  | handle (env : Env) (msg : RequestMsg)
  | get
  | complete (k : Nat)

/-- A call of one of the three functions that returned. -/
inductive BufferStep : ReqBuffer → BufferEvent → ReqBuffer → Prop where
  | handle {rbuf rbuf' : ReqBuffer} {env : Env} {msg : RequestMsg} {r : Int}
      (h : handleMsg env rbuf msg = .ok (r, rbuf')) : BufferStep rbuf (.handle env msg) rbuf'
  | get {rbuf rbuf' : ReqBuffer} {k : Nat} (h : getServiceReq rbuf = .ok (k, rbuf')) :
      BufferStep rbuf .get rbuf'
  | complete {rbuf rbuf' : ReqBuffer} {k : Nat} (h : completeReq rbuf k = .ok rbuf') :
      BufferStep rbuf (.complete k) rbuf'

theorem SlotsFit.handled {env : Env} {rbuf rbuf' : ReqBuffer} {msg : RequestMsg} {r : Int}
    (hs : SlotsFit rbuf) (h : handleMsg env rbuf msg = .ok (r, rbuf')) : SlotsFit rbuf' := by
  by_cases hr : r = 0
  · subst hr
    cases handleMsg_ok h with
    | single _ _ hlen =>
        refine hs.set rfl fun data hdata => ?_
        cases hdata
        exact hlen
    | first _ _ _ hlen =>
        refine hs.set rfl fun data hdata => ?_
        cases hdata
        exact hlen
    | next _ _ _ _ hreq _ hold _ hpoke =>
        refine hs.set rfl fun data hdata => ?_
        cases hdata
        exact (poke_ok hpoke).2.1.trans (hs _ (List.mem_of_getElem? hreq) _ hold)
  · obtain ⟨-, -, href⟩ := handleMsg_refused h hr
    cases href with
    | unfound => exact hs
    | corrupted hreq _ hold _ hpoke =>
        refine hs.set rfl fun data hdata => ?_
        cases hdata
        exact (poke_ok hpoke).2.1.trans (hs _ (List.mem_of_getElem? hreq) _ hold)

theorem SlotsFit.step {rbuf rbuf' : ReqBuffer} {e : BufferEvent} (hs : SlotsFit rbuf)
    (h : BufferStep rbuf e rbuf') : SlotsFit rbuf' := by
  cases h with
  | handle h => exact hs.handled h
  | get h =>
      obtain ⟨-, -, -, rfl⟩ := getServiceReq_ok h
      exact hs
  | complete h =>
      obtain ⟨req, -, h⟩ := bind_ok_iff.mp h
      cases h
      exact hs.set rfl fun data hdata => nomatch hdata

/-- Whatever is sent, the memory of the slots has the sizes they give. -/
theorem slotsFit_of_run {n : Nat} {buf rbuf : ReqBuffer} {es : List BufferEvent}
    (hb : reqBufferCreate n = some buf) (hr : Run BufferStep buf es rbuf) : SlotsFit rbuf := by
  refine hr.invariant SlotsFit ?_ fun _ _ _ hs hstep => hs.step hstep
  unfold reqBufferCreate at hb
  by_cases hn : n > 0
  · rw [if_pos hn] at hb
    cases hb
    intro req hreq data hdata
    rw [List.eq_of_mem_replicate hreq] at hdata
    exact nomatch hdata
  · rw [if_neg hn] at hb
    exact nomatch hb

/-! ## Malformed parts -/

/-- A part that reaches behind the end of its request: a first part by the size
    it gives itself, a further one by that of a slot with its number. -/
structure Malformed (rbuf : ReqBuffer) (msg : RequestMsg) : Prop where
  multipart : msg.multipart ≠ 0
  beyond : (msg.dataOffset = 0 ∧ msg.dataSize < msg.dataOffset + msg.partSize) ∨
    (msg.dataOffset ≠ 0 ∧ ∃ (k : Nat) (req : ServiceReq), rbuf.reqs[k]? = some req ∧
      req.seq = msg.seq ∧ req.dataSize < msg.dataOffset + msg.partSize)

/-- Refused without effect: the number returned is not zero, the whole buffer is
    as it was, and its mutex is free. -/
def Rejects (env : Env) (rbuf : ReqBuffer) (msg : RequestMsg) : Prop :=
  ∃ r, r ≠ 0 ∧ handleMsg env rbuf msg = .ok (r, rbuf) ∧ rbuf.lock = false

/-- No slot from the read index up to the write index has the number. -/
def Unlisted (rbuf : ReqBuffer) (seq : Int) : Prop :=
  ∀ k, rbuf.rdIdx ≤ k → k < rbuf.wrIdx → ∃ req, rbuf.reqs[k]? = some req ∧ req.seq ≠ seq

section Malformed

variable {env : Env} {rbuf rbuf' : ReqBuffer} {msg : RequestMsg} {r : Int}

theorem unlisted_iff {seq : Int} :
    findSeq rbuf seq (rbuf.wrIdx - rbuf.rdIdx) rbuf.rdIdx = .ok none ↔ Unlisted rbuf seq := by
  rw [findSeq_none]
  constructor
  · intro h k h1 h2
    exact h k h1 (by omega)
  · intro h k h1 h2
    exact h k h1 (by omega)

/-- A part that was copied to a slot ends where its memory ends or before. -/
theorem SlotsFit.poke_fits (hfit : SlotsFit rbuf) {i : Nat} {req : ServiceReq}
    {old data src : Bytes} (hreq : rbuf.reqs[i]? = some req) (hold : req.data = some old)
    (hsrc : slice msg.data 0 msg.partSize = .ok src)
    (hpoke : poke old msg.dataOffset src = .ok data) :
    msg.dataOffset + msg.partSize ≤ req.dataSize := by
  obtain ⟨hle, rfl⟩ := slice_ok hsrc
  have hin := (poke_ok hpoke).1
  rw [List.length_take, List.length_drop, hfit _ (List.mem_of_getElem? hreq) _ hold] at hin
  omega

/-- Whatever came before, `handle_msg` returns from a malformed part only if it
    has refused it without effect: a part that is copied overruns the memory of
    its request. -/
theorem Malformed.returns {n : Nat} {buf : ReqBuffer} {es : List BufferEvent}
    (hb : reqBufferCreate n = some buf) (hr : Run BufferStep buf es rbuf)
    (hm : Malformed rbuf msg) (hslots : ∀ req ∈ rbuf.reqs, req.seq = msg.seq →
      req.dataSize < msg.dataOffset + msg.partSize)
    (h : handleMsg env rbuf msg = .ok (r, rbuf')) : r = -1 ∧ rbuf' = rbuf := by
  have hfit := slotsFit_of_run hb hr
  by_cases hz : r = 0
  · exfalso
    subst hz
    cases handleMsg_ok h with
    | single h0 => exact hm.multipart h0
    | first _ ho _ hlen hsrc hfits hdata =>
        rcases hm.beyond with ⟨-, hlong⟩ | ⟨hne, -⟩
        · rw [← hdata, List.length_take, hlen] at hfits
          omega
        · exact hne ho
    | next _ _ _ _ hreq hseq hold hsrc hpoke =>
        have hin := hfit.poke_fits hreq hold hsrc hpoke
        exact absurd (hslots _ (List.mem_of_getElem? hreq) hseq) (Nat.not_lt.mpr hin)
  · obtain ⟨-, -, href⟩ := handleMsg_refused h hz
    cases href with
    | unfound => exact ⟨rfl, rfl⟩
    | corrupted hreq hseq hold hsrc hpoke =>
        have hin := hfit.poke_fits hreq hold hsrc hpoke
        exact absurd (hslots _ (List.mem_of_getElem? hreq) hseq) (Nat.not_lt.mpr hin)

/-- In every buffer, a malformed part is refused without effect exactly if it
    is a further part, the mutex is free, and its request is not found. -/
theorem malformed_rejected_iff (env : Env) (hm : Malformed rbuf msg) :
    Rejects env rbuf msg ↔
      msg.dataOffset ≠ 0 ∧ rbuf.lock = false ∧ Unlisted rbuf msg.seq := by
  constructor
  · rintro ⟨r, hr, hcall, hlock⟩
    obtain ⟨-, ho, href⟩ := handleMsg_refused hcall hr
    exact ⟨ho, hlock, unlisted_iff.mp (href.unfound_of_free hlock)⟩
  · rintro ⟨ho, hlock, hun⟩
    exact ⟨-1, by decide, handleMsg_of_none hm.multipart ho (unlisted_iff.mpr hun), hlock⟩

end Malformed

/-- A ring of two slots whose read index stands at the last one, where a
    request of ten bytes waits for its second part. -/
def wrappedRing : ReqBuffer :=
  ⟨false, 1, 0, 0, 1, 2, [zeroReq, ⟨7, .write, .inProgress, 10, 4, some (List.replicate 10 0)⟩]⟩

/-- Its second part, two bytes too long, is refused: the search does not come
    to the slot. -/
theorem wrapped_part_rejected :
    Rejects ⟨fun _ => ⟨0, 0⟩, fun _ => 0⟩ wrappedRing ⟨7, .write, 2, 10, 4, 8, List.replicate 8 65⟩ :=
  (malformed_rejected_iff _ ⟨by decide, Or.inr ⟨by decide, 1, _, rfl, rfl, by decide⟩⟩).mpr
    ⟨by decide, rfl, fun k _ h2 => absurd h2 (Nat.not_lt_zero k)⟩

/-- A first part of eight bytes for a request of four, in a fresh ring. -/
theorem malformed_not_rejected : ¬ ∀ (env : Env) (rbuf : ReqBuffer) (msg : RequestMsg),
    Malformed rbuf msg → Rejects env rbuf msg := by
  intro hclaim
  let msg : RequestMsg := ⟨1, .create, 2, 4, 0, 8, List.replicate 8 65⟩
  obtain ⟨r, hr, hcall, -⟩ := hclaim ⟨fun _ => ⟨0, 0⟩, fun _ => 0⟩
    ⟨false, 1, 0, 0, 0, 1, [zeroReq]⟩ msg ⟨by decide, Or.inl ⟨rfl, by decide⟩⟩
  exact (handleMsg_refused hcall hr).2.1 rfl

end LibfsSpecs
