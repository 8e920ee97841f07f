import Libfs.ReqBuffer
import Mathlib.Data.Nat.ModEq

/-! # What the calls on the request buffer do

    One rule for each call that returned, the messages of one request as a
    chain of parts, and what a slot holds of a request of which some parts
    are still to come. -/

namespace LibfsSpecs

open LibfsHeap LibfsStdio LibfsCommon LibfsBuffer

/-! ## Numbers of a ring -/

/-- Two numbers of one turn of the ring that share a slot are the same. -/
theorem turn_inj {g n i j : Nat} (hi : g ≤ i) (hi' : i < g + n) (hj : g ≤ j) (hj' : j < g + n)
    (h : i % n = j % n) : i = j := by
  refine Nat.ModEq.eq_of_abs_lt (m := n) h ?_
  rw [abs_lt]
  omega

/-- A slot between the read and the write index carries a number of the
    window. -/
theorem window_of_scan {g w n k : Nat} (hg : g ≤ w) (hw : w ≤ g + n) (h1 : g % n ≤ k)
    (h2 : k < w % n) : ∃ j, g ≤ j ∧ j < w ∧ j % n = k := by
  have hn : 0 < n := by
    rcases Nat.eq_zero_or_pos n with h0 | h0
    · subst h0
      simp only [Nat.mod_zero] at h1 h2
      omega
    · exact h0
  obtain ⟨d, rfl⟩ := Nat.exists_eq_add_of_le hg
  have hlt : g % n < n := Nat.mod_lt _ hn
  have hk : k < n := Nat.lt_trans h2 (Nat.mod_lt _ hn)
  have hsum : (g + d) % n = (g % n + d) % n := (Nat.mod_add_mod g n d).symm
  have hin : k - g % n < d := by
    rcases Nat.lt_or_ge (g % n + d) n with hlow | hhigh
    · rw [hsum, Nat.mod_eq_of_lt hlow] at h2
      omega
    · -- the write index has wrapped around, so nothing is scanned
      rw [hsum, Nat.mod_eq_sub_mod hhigh, Nat.mod_eq_of_lt (by omega)] at h2
      omega
  refine ⟨g + (k - g % n), Nat.le_add_right .., by omega, ?_⟩
  rw [← Nat.mod_add_mod, Nat.add_sub_cancel' h1, Nat.mod_eq_of_lt hk]

/-! ## The calls -/

theorem semWait_ok {n m : Nat} : semWait n = .ok m ↔ n = m + 1 := by
  cases n with
  | zero =>
      constructor
      · intro h
        exact nomatch h
      · intro h
        omega
  | succ n =>
      constructor
      · intro h
        cases h
        rfl
      · intro h
        rw [Nat.succ.inj h]
        rfl

theorem mutexLock_ok {held : Bool} {u : Unit} : mutexLock held = .ok u ↔ held = false := by
  cases held with
  | true =>
      constructor
      · intro h
        exact nomatch h
      · intro h
        exact nomatch h
  | false => exact ⟨fun _ => rfl, fun _ => rfl⟩

theorem slot_ok {rbuf : ReqBuffer} {i : Nat} {req : ServiceReq} :
    rbuf.slot i = .ok req ↔ rbuf.reqs[i]? = some req := by
  unfold ReqBuffer.slot
  cases h : rbuf.reqs[i]? with
  | none =>
      constructor
      · intro h'
        exact nomatch h'
      · intro h'
        exact nomatch h'
  | some r =>
      constructor
      · intro h'
        cases h'
        rfl
      · intro h'
        cases h'
        rfl

theorem findSeq_ok {rbuf : ReqBuffer} {seq : Int} {k : Nat} (n : Nat) :
    ∀ i, findSeq rbuf seq n i = .ok (some k) →
      i ≤ k ∧ k < i + n ∧ ∃ req, rbuf.reqs[k]? = some req ∧ req.seq = seq := by
  induction n with
  | zero =>
      intro i h
      exact nomatch h
  | succ n ih =>
      intro i h
      rw [findSeq] at h
      obtain ⟨req, hreq, h⟩ := bind_ok_iff.mp h
      by_cases hseq : req.seq = seq
      · rw [if_pos hseq] at h
        cases h
        exact ⟨Nat.le_refl _, by omega, req, slot_ok.mp hreq, hseq⟩
      · rw [if_neg hseq] at h
        obtain ⟨h1, h2, h3⟩ := ih (i + 1) h
        exact ⟨by omega, by omega, h3⟩

/-- The buffer with `req` in the slot at the write index. -/
def pushReq (rbuf : ReqBuffer) (req : ServiceReq) : ReqBuffer :=
  { rbuf with
    empty := rbuf.empty - 1
    reqs := rbuf.reqs.set rbuf.wrIdx req
    wrIdx := (rbuf.wrIdx + 1) % rbuf.size }

/-- A slot can be taken. -/
structure HasRoom (rbuf : ReqBuffer) : Prop where
  empty : 0 < rbuf.empty
  unlocked : rbuf.lock = false
  inside : rbuf.wrIdx < rbuf.reqs.length

theorem enqueue_ok {rbuf rbuf' : ReqBuffer} {newReq : C ServiceReq}
    (h : enqueue rbuf newReq = .ok rbuf') :
    HasRoom rbuf ∧ ∃ req, newReq = .ok req ∧ rbuf' = pushReq rbuf req := by
  unfold enqueue at h
  obtain ⟨empty, hempty, h⟩ := bind_ok_iff.mp h
  obtain ⟨u, hlock, h⟩ := bind_ok_iff.mp h
  obtain ⟨req, hreq, h⟩ := bind_ok_iff.mp h
  obtain ⟨old, hold, h⟩ := bind_ok_iff.mp h
  cases h
  have he := semWait_ok.mp hempty
  refine ⟨⟨by omega, mutexLock_ok.mp hlock, ?_⟩, req, hreq, ?_⟩
  · exact (List.getElem?_eq_some_iff.mp (slot_ok.mp hold)).1
  · unfold pushReq
    rw [he, Nat.add_sub_cancel]

/-- What a call of `handle_msg` that returns zero does with a message. -/
inductive Handled (rbuf : ReqBuffer) (msg : RequestMsg) : ReqBuffer → Prop where
  | single {data : Bytes} (hm : msg.multipart = 0) (hroom : HasRoom rbuf)
      (hlen : data.length = msg.dataSize) (hdata : data = msg.data.take msg.dataSize) :
      Handled rbuf msg { pushReq rbuf ⟨msg.seq, msg.type, .ready, msg.dataSize, 0, some data⟩ with
        full := rbuf.full + 1 }
  | first {data src : Bytes} (hm : msg.multipart ≠ 0) (ho : msg.dataOffset = 0)
      (hroom : HasRoom rbuf) (hlen : data.length = msg.dataSize)
      (hsrc : src = msg.data.take msg.partSize) (hfits : src.length = msg.partSize)
      (hdata : data.take msg.partSize = src) :
      Handled rbuf msg (pushReq rbuf
        ⟨msg.seq, msg.type, .inProgress, msg.dataSize, msg.partSize, some data⟩)
  /-- A further part; `last` says whether it makes the request complete. -/
  | next {i : Nat} {req : ServiceReq} {old data src : Bytes} {last : Bool}
      (hm : msg.multipart ≠ 0) (ho : msg.dataOffset ≠ 0)
      (h1 : rbuf.rdIdx ≤ i) (h2 : i < rbuf.wrIdx) (hreq : rbuf.reqs[i]? = some req)
      (hseq : req.seq = msg.seq) (hold : req.data = some old)
      (hsrc : slice msg.data 0 msg.partSize = .ok src)
      (hdata : poke old msg.dataOffset src = .ok data)
      (hlast : last = decide (u32 (req.dataOffset + msg.partSize) = req.dataSize))
      (hle : u32 (req.dataOffset + msg.partSize) ≤ req.dataSize) :
      Handled rbuf msg { rbuf with
        reqs := rbuf.reqs.set i { req with
          data := some data
          dataOffset := u32 (req.dataOffset + msg.partSize)
          reqStatus := if last then .ready else req.reqStatus }
        full := if last then rbuf.full + 1 else rbuf.full }

/-- A single message or a first part takes a free slot. -/
theorem Handled.takes_slot {rbuf rbuf' : ReqBuffer} {msg : RequestMsg} (h : Handled rbuf msg rbuf')
    (htake : msg.multipart = 0 ∨ msg.dataOffset = 0) : rbuf'.empty = rbuf.empty - 1 := by
  cases h with
  | single => rfl
  | first => rfl
  | next hm ho =>
      rcases htake with h0 | h0
      · exact absurd h0 hm
      · exact absurd h0 ho

/-- A further part takes none. -/
theorem Handled.keeps_slots {rbuf rbuf' : ReqBuffer} {msg : RequestMsg} (h : Handled rbuf msg rbuf')
    (hnot : ¬ (msg.multipart = 0 ∨ msg.dataOffset = 0)) : rbuf'.empty = rbuf.empty := by
  cases h with
  | single h0 => exact absurd (Or.inl h0) hnot
  | first _ h0 => exact absurd (Or.inr h0) hnot
  | next => rfl

/-- What a call of `handle_msg` that returns another number does with a
    message. -/
inductive Refused (rbuf : ReqBuffer) (msg : RequestMsg) : Int → ReqBuffer → Prop where
  | unfound (hnone : findSeq rbuf msg.seq (rbuf.wrIdx - rbuf.rdIdx) rbuf.rdIdx = .ok none) :
      Refused rbuf msg (-1) rbuf
  | corrupted {i : Nat} {req : ServiceReq} {old data src : Bytes}
      (hreq : rbuf.reqs[i]? = some req) (hseq : req.seq = msg.seq) (hold : req.data = some old)
      (hsrc : slice msg.data 0 msg.partSize = .ok src)
      (hdata : poke old msg.dataOffset src = .ok data) :
      Refused rbuf msg (-3) { rbuf with
        reqs := rbuf.reqs.set i { req with
          data := some data
          dataOffset := u32 (req.dataOffset + msg.partSize) }
        lock := true }

section Calls

variable {env : Env} {rbuf rbuf' : ReqBuffer} {msg : RequestMsg} {r : Int}

/-- A call of `handle_msg` that returns has handled the message or refused it. -/
theorem handleMsg_cases (h : handleMsg env rbuf msg = .ok (r, rbuf')) :
    (r = 0 ∧ Handled rbuf msg rbuf') ∨
      (r ≠ 0 ∧ msg.multipart ≠ 0 ∧ msg.dataOffset ≠ 0 ∧ Refused rbuf msg r rbuf') := by
  unfold handleMsg at h
  by_cases hm : msg.multipart = 0
  · rw [if_pos hm] at h
    obtain ⟨rbuf₁, he, h⟩ := bind_ok_iff.mp h
    cases h
    obtain ⟨hroom, req, hreq, rfl⟩ := enqueue_ok he
    obtain ⟨src, hsrc, hreq⟩ := bind_ok_iff.mp hreq
    obtain ⟨data, hdata, hreq⟩ := bind_ok_iff.mp hreq
    cases hreq
    obtain ⟨hle, rfl⟩ := slice_ok hsrc
    obtain ⟨-, hlen, hcopy⟩ := poke_ok hdata
    rw [Env.malloc_length] at hlen
    refine Or.inl ⟨rfl, .single hm hroom hlen ?_⟩
    rw [hcopy, List.take_zero, List.nil_append, List.drop_zero, List.drop_eq_nil_of_le,
      List.append_nil]
    rw [Env.malloc_length, List.length_take]
    omega
  · rw [if_neg hm] at h
    by_cases ho : msg.dataOffset = 0
    · rw [if_pos ho] at h
      obtain ⟨rbuf₁, he, h⟩ := bind_ok_iff.mp h
      cases h
      obtain ⟨hroom, req, hreq, rfl⟩ := enqueue_ok he
      obtain ⟨src, hsrc, hreq⟩ := bind_ok_iff.mp hreq
      obtain ⟨data, hdata, hreq⟩ := bind_ok_iff.mp hreq
      cases hreq
      obtain ⟨hle, hsrc⟩ := slice_ok hsrc
      obtain ⟨-, hlen, hcopy⟩ := poke_ok hdata
      rw [Env.malloc_length] at hlen
      have hsize : src.length = msg.partSize := by
        rw [hsrc, List.length_take, List.length_drop]
        omega
      refine Or.inl ⟨rfl, .first hm ho hroom hlen hsrc hsize ?_⟩
      rw [hcopy, ho, List.take_zero, List.nil_append, List.take_left' hsize]
    · rw [if_neg ho] at h
      obtain ⟨found, hfound, h⟩ := bind_ok_iff.mp h
      cases found with
      | none =>
          cases h
          exact Or.inr ⟨by decide, hm, ho, .unfound hfound⟩
      | some i =>
          obtain ⟨h1, h2, req, hreq, hseq⟩ := findSeq_ok _ _ hfound
          obtain ⟨u, hlock, h⟩ := bind_ok_iff.mp h
          obtain ⟨req', hreq', h⟩ := bind_ok_iff.mp h
          cases (hreq.symm.trans (slot_ok.mp hreq'))
          cases hold : req.data with
          | none =>
              simp only [hold] at h
              exact nomatch h
          | some old =>
              simp only [hold] at h
              obtain ⟨src, hsrc, h⟩ := bind_ok_iff.mp h
              obtain ⟨data, hdata, h⟩ := bind_ok_iff.mp h
              by_cases heq : u32 (req.dataOffset + msg.partSize) = req.dataSize
              · rw [if_pos heq] at h
                cases h
                have hnext := Handled.next hm ho h1 (by omega) hreq hseq hold hsrc hdata
                  (decide_eq_true heq).symm heq.le
                exact Or.inl ⟨rfl, hnext⟩
              · rw [if_neg heq] at h
                by_cases hgt : u32 (req.dataOffset + msg.partSize) > req.dataSize
                · rw [if_pos hgt] at h
                  cases h
                  exact Or.inr ⟨by decide, hm, ho, .corrupted hreq hseq hold hsrc hdata⟩
                · rw [if_neg hgt] at h
                  cases h
                  have hnext := Handled.next hm ho h1 (by omega) hreq hseq hold hsrc hdata
                    (decide_eq_false heq).symm (Nat.not_lt.mp hgt)
                  exact Or.inl ⟨rfl, hnext⟩

theorem handleMsg_ok (h : handleMsg env rbuf msg = .ok (0, rbuf')) : Handled rbuf msg rbuf' := by
  rcases handleMsg_cases h with ⟨-, hhandled⟩ | ⟨hne, -⟩
  · exact hhandled
  · exact absurd rfl hne

theorem handleMsg_refused (h : handleMsg env rbuf msg = .ok (r, rbuf')) (hr : r ≠ 0) :
    msg.multipart ≠ 0 ∧ msg.dataOffset ≠ 0 ∧ Refused rbuf msg r rbuf' := by
  rcases handleMsg_cases h with ⟨hz, -⟩ | ⟨-, hrefused⟩
  · exact absurd hz hr
  · exact hrefused

/-- A further part of a request that is not found. -/
theorem handleMsg_of_none (hm : msg.multipart ≠ 0) (ho : msg.dataOffset ≠ 0)
    (hnone : findSeq rbuf msg.seq (rbuf.wrIdx - rbuf.rdIdx) rbuf.rdIdx = .ok none) :
    handleMsg env rbuf msg = .ok (-1, rbuf) := by
  unfold handleMsg
  rw [if_neg hm, if_neg ho, hnone]
  rfl

end Calls

theorem getServiceReq_ok {rbuf rbuf' : ReqBuffer} {k : Nat}
    (h : getServiceReq rbuf = .ok (k, rbuf')) :
    k = rbuf.rdIdx ∧ rbuf.lock = false ∧ 0 < rbuf.full ∧ rbuf' = { rbuf with
      full := rbuf.full - 1
      rdIdx := (rbuf.rdIdx + 1) % rbuf.size
      empty := rbuf.empty + 1 } := by
  unfold getServiceReq at h
  obtain ⟨full, hfull, h⟩ := bind_ok_iff.mp h
  obtain ⟨u, hlock, h⟩ := bind_ok_iff.mp h
  cases h
  have hf := semWait_ok.mp hfull
  refine ⟨rfl, mutexLock_ok.mp hlock, by omega, ?_⟩
  rw [hf, Nat.add_sub_cancel]

/-- A fetch is possible as soon as a request is complete. -/
theorem getServiceReq_of_full {rbuf : ReqBuffer} (hlock : rbuf.lock = false)
    (hfull : 0 < rbuf.full) : ∃ rbuf', getServiceReq rbuf = .ok (rbuf.rdIdx, rbuf') := by
  obtain ⟨f, hf⟩ : ∃ f, rbuf.full = f + 1 := ⟨rbuf.full - 1, by omega⟩
  refine ⟨{ rbuf with full := f, rdIdx := (rbuf.rdIdx + 1) % rbuf.size, empty := rbuf.empty + 1 }, ?_⟩
  unfold getServiceReq
  rw [hf, hlock]
  rfl

/-! ## The messages of one request -/

/-- A part of a request, from the byte `off` of its payload on. -/
structure IsPart (c : ClientReq) (off : Nat) (m : RequestMsg) : Prop where
  seq : m.seq = c.seq
  type : m.type = c.type
  multipart : m.multipart ≠ 0
  size : m.dataSize = c.payload.length
  offset : m.dataOffset = off
  pos : 0 < m.partSize
  inside : off + m.partSize ≤ c.payload.length
  room : m.partSize ≤ maxMsgDataSize
  data : m.data = (c.payload.drop off).take m.partSize

/-- Parts one behind the other, from the byte `off` of the payload to its
    end. -/
def Continues (c : ClientReq) : Nat → List RequestMsg → Prop
  | off, [] => off = c.payload.length
  | off, m :: ms => IsPart c off m ∧ Continues c (off + m.partSize) ms

/-- A request that fits one message. -/
structure IsSingle (c : ClientReq) (m : RequestMsg) : Prop where
  seq : m.seq = c.seq
  type : m.type = c.type
  multipart : m.multipart = 0
  size : m.dataSize = c.payload.length
  room : c.payload.length ≤ maxMsgDataSize
  data : m.data = c.payload

/-- The rounds of the loop that are left send what is left. -/
theorem sendParts_continues {c : ClientReq} (hlong : maxMsgDataSize < c.payload.length) (n : Nat) :
    ∀ i off, i + n = numOfParts c.payload.length →
      off = min (i * maxMsgDataSize) c.payload.length →
      Continues c off (sendParts c n i (c.payload.length - off)) := by
  have hshort := c.short
  have hparts : (numOfParts c.payload.length - 1) * maxMsgDataSize < c.payload.length ∧
      c.payload.length ≤ numOfParts c.payload.length * maxMsgDataSize ∧
      2 ≤ numOfParts c.payload.length := by
    unfold numOfParts
    simp only [maxMsgDataSize, maxMsgSize] at hlong ⊢
    split <;> split <;> omega
  induction n with
  | zero =>
      intro i off hi hoff
      show off = c.payload.length
      rw [hoff, show i = numOfParts c.payload.length from hi]
      omega
  | succ n ih =>
      intro i off hi hoff
      have hlt : i * maxMsgDataSize < c.payload.length := by
        have hle : i ≤ numOfParts c.payload.length - 1 := by omega
        exact Nat.lt_of_le_of_lt (Nat.mul_le_mul_right _ hle) hparts.1
      have hoff' : off = i * maxMsgDataSize := by omega
      have hwrap : (if i ≠ 0 then u32 (i * maxMsgDataSize) else 0) = off := by
        by_cases h0 : i = 0
        · rw [if_neg (by simpa using h0), hoff', h0, Nat.zero_mul]
        · rw [if_pos h0, u32_of_lt (by omega), hoff']
      have hsize : (if c.payload.length - off > maxMsgDataSize then maxMsgDataSize
          else c.payload.length - off) = min maxMsgDataSize (c.payload.length - off) := by
        split <;> omega
      have hstep : off + min maxMsgDataSize (c.payload.length - off)
          = min ((i + 1) * maxMsgDataSize) c.payload.length := by
        rw [Nat.succ_mul]
        omega
      have hrest := ih (i + 1) _ (by omega) hstep
      rw [sendParts, hsize, Nat.sub_sub]
      have hnext : (requestPart c i (c.payload.length - off)).partSize
          = min maxMsgDataSize (c.payload.length - off) := hsize
      constructor
      · refine ⟨rfl, rfl, ?_, rfl, hwrap, ?_, ?_, ?_, ?_⟩
        · show (if numOfParts c.payload.length = 1 then 0 else numOfParts c.payload.length) ≠ 0
          rw [if_neg (by omega)]
          omega
        · rw [hnext]
          exact Nat.lt_min.mpr ⟨by decide, by omega⟩
        · rw [hnext]
          omega
        · rw [hnext]
          exact Nat.min_le_left ..
        · show (c.payload.drop (if i ≠ 0 then u32 (i * maxMsgDataSize) else 0)).take _ = _
          rw [hwrap]
          rfl
      · rw [hnext]
        exact hrest

/-- The messages of a request: a single one, or a first part and others. -/
theorem requestMessages_cases (c : ClientReq) :
    (∃ m, requestMessages c = [m] ∧ IsSingle c m) ∨
      ∃ m ms, requestMessages c = m :: ms ∧ ms ≠ [] ∧ Continues c 0 (m :: ms) := by
  by_cases hlong : maxMsgDataSize < c.payload.length
  · refine Or.inr ?_
    have hcont := sendParts_continues hlong (numOfParts c.payload.length) 0 0 (Nat.zero_add _)
      (by rw [Nat.zero_mul, Nat.zero_min])
    rw [Nat.sub_zero] at hcont
    change Continues c 0 (requestMessages c) at hcont
    cases hms : requestMessages c with
    | nil =>
        rw [hms] at hcont
        change 0 = c.payload.length at hcont
        omega
    | cons m ms =>
        rw [hms] at hcont
        refine ⟨m, ms, rfl, ?_, hcont⟩
        rintro rfl
        -- one part holds at most `MAX_MSG_DATA_SIZE` bytes
        have hend : 0 + m.partSize = c.payload.length := hcont.2
        have hroom := hcont.1.room
        omega
  · have hone : numOfParts c.payload.length = 1 := by
      unfold numOfParts
      simp only [maxMsgDataSize, maxMsgSize] at hlong ⊢
      split <;> split <;> omega
    refine Or.inl ⟨requestPart c 0 c.payload.length, ?_, ?_⟩
    · unfold requestMessages
      rw [hone]
      rfl
    · refine ⟨rfl, rfl, ?_, rfl, Nat.not_lt.mp hlong, ?_⟩
      · show (if numOfParts c.payload.length = 1 then 0 else _) = 0
        rw [if_pos hone]
      · show (c.payload.drop 0).take (if c.payload.length > maxMsgDataSize then _ else _) = _
        rw [if_neg hlong, List.drop_zero, List.take_length]

/-- Every part from a positive byte on is a further part. -/
theorem Continues.further {c : ClientReq} (ms : List RequestMsg) :
    ∀ {off : Nat}, Continues c off ms → 0 < off →
      ∀ m ∈ ms, m.multipart ≠ 0 ∧ m.dataOffset ≠ 0 ∧ m.seq = c.seq := by
  induction ms with
  | nil =>
      intro off _ _ m hm
      exact nomatch hm
  | cons m₀ ms ih =>
      rintro off ⟨hpart, hrest⟩ hpos m hm
      rcases List.mem_cons.mp hm with rfl | hm
      · exact ⟨hpart.multipart, by rw [hpart.offset]; omega, hpart.seq⟩
      · exact ih hrest (by omega) m hm

/-! ## What a slot holds of a request -/

/-- The slot holds the request `c`, of which the parts `ms` are still to
    come. -/
structure Holds (c : ClientReq) (slot : ServiceReq) (ms : List RequestMsg) : Prop where
  seq : slot.seq = c.seq
  type : slot.type = c.type
  size : slot.dataSize = c.payload.length
  status : slot.reqStatus = if ms = [] then .ready else .inProgress
  started : ms ≠ [] → 0 < slot.dataOffset
  rest : ms ≠ [] → Continues c slot.dataOffset ms
  data : ∃ data : Bytes, slot.data = some data ∧ data.length = c.payload.length ∧
    if ms = [] then data = c.payload
    else data.take slot.dataOffset = c.payload.take slot.dataOffset

/-- A message as it comes on holds the bytes that were sent. -/
theorem received_take {m : RequestMsg} {n : Nat} (hroom : n ≤ maxMsgDataSize)
    (hlen : m.data.length = n) : (received m).data.take n = m.data := by
  subst hlen
  exact pad_take m.data (Nat.le_trans hroom (by decide))

theorem IsPart.data_length {c : ClientReq} {off : Nat} {m : RequestMsg} (h : IsPart c off m) :
    m.data.length = m.partSize := by
  have hin := h.inside
  rw [h.data, List.length_take, List.length_drop]
  omega

/-- A single message fills its slot. -/
theorem Holds.single {c : ClientReq} {m : RequestMsg} (h : IsSingle c m) {data : Bytes}
    (hlen : data.length = (received m).dataSize)
    (hdata : data = (received m).data.take (received m).dataSize) :
    Holds c ⟨(received m).seq, (received m).type, .ready, (received m).dataSize, 0, some data⟩
      [] := by
  have hsize : (received m).dataSize = c.payload.length := h.size
  have hbytes : data = c.payload := by
    rw [hdata, hsize, received_take h.room (by rw [h.data]), h.data]
  exact ⟨h.seq, h.type, h.size, rfl, fun hne => absurd rfl hne, fun hne => absurd rfl hne,
    data, rfl, hlen.trans h.size, hbytes⟩

/-- A first part begins one. -/
theorem Holds.first {c : ClientReq} {m : RequestMsg} {ms : List RequestMsg} (hne : ms ≠ [])
    (h : Continues c 0 (m :: ms)) {data src : Bytes} (hlen : data.length = (received m).dataSize)
    (hsrc : src = (received m).data.take (received m).partSize)
    (hdata : data.take (received m).partSize = src) :
    Holds c ⟨(received m).seq, (received m).type, .inProgress, (received m).dataSize,
      (received m).partSize, some data⟩ ms := by
  obtain ⟨hpart, hrest⟩ := h
  have hsent : (received m).data.take m.partSize = m.data :=
    received_take hpart.room hpart.data_length
  rw [Nat.zero_add] at hrest
  refine ⟨hpart.seq, hpart.type, hpart.size, by rw [if_neg hne], fun _ => hpart.pos, fun _ => hrest,
    data, rfl, hlen.trans hpart.size, ?_⟩
  rw [if_neg hne]
  show data.take m.partSize = c.payload.take m.partSize
  have hpayload := hpart.data
  rw [List.drop_zero] at hpayload
  rw [show data.take m.partSize = src from hdata, hsrc]
  exact hsent.trans hpayload

/-- A further part adds its bytes behind those that are there. -/
theorem Holds.next {c : ClientReq} {slot : ServiceReq} {m : RequestMsg} {ms : List RequestMsg}
    (h : Holds c slot (m :: ms)) {old data src : Bytes} {last : Bool}
    (hold : slot.data = some old)
    (hsrc : slice (received m).data 0 (received m).partSize = .ok src)
    (hdata : poke old (received m).dataOffset src = .ok data)
    (hlast : last = decide (u32 (slot.dataOffset + (received m).partSize) = slot.dataSize)) :
    (last = true ↔ ms = []) ∧ Holds c { slot with
      data := some data
      dataOffset := u32 (slot.dataOffset + (received m).partSize)
      reqStatus := if last then .ready else slot.reqStatus } ms := by
  have hcons : m :: ms ≠ [] := List.cons_ne_nil m ms
  obtain ⟨hpart, hrest⟩ := h.rest hcons
  have hoffset : u32 (slot.dataOffset + (received m).partSize) = slot.dataOffset + m.partSize := by
    have := c.short
    have := hpart.inside
    exact u32_of_lt (by show slot.dataOffset + m.partSize < _; omega)
  have hend : slot.dataOffset + m.partSize = slot.dataSize ↔ ms = [] := by
    rw [h.size]
    constructor
    · intro he
      cases ms with
      | nil => rfl
      | cons m' ms' =>
          have := hrest.1.pos
          have := hrest.1.inside
          omega
    · rintro rfl
      exact hrest
  rw [hoffset] at hlast ⊢
  have hlast' : last = true ↔ ms = [] := by
    rw [hlast, decide_eq_true_iff]
    exact hend
  obtain ⟨old', hold', holen, holddata⟩ := h.data
  cases hold.symm.trans hold'
  rw [if_neg hcons] at holddata
  obtain ⟨hle, rfl⟩ := slice_ok hsrc
  obtain ⟨-, hlen, hcopy⟩ := poke_ok hdata
  have hsent : (((received m).data.drop 0).take (received m).partSize) = m.data := by
    rw [List.drop_zero]
    exact received_take hpart.room hpart.data_length
  have hto : (received m).dataOffset = slot.dataOffset := hpart.offset
  have hin := hpart.inside
  -- the bytes up to the end of the part
  have hprefix : data.take (slot.dataOffset + m.partSize)
      = c.payload.take (slot.dataOffset + m.partSize) := by
    rw [hcopy, hsent, hto, List.take_append_of_le_length, List.take_of_length_le, holddata,
      hpart.data, ← List.take_add]
    · rw [List.length_append, List.length_take, hpart.data_length]
      omega
    · rw [List.length_append, List.length_take, hpart.data_length]
      omega
  refine ⟨hlast', h.seq, h.type, h.size, ?_, ?_, fun _ => hrest, data, rfl, hlen.trans holen, ?_⟩
  · by_cases hms : ms = []
    · rw [if_pos hms]
      show (if last = true then ReqStatus.ready else _) = _
      rw [if_pos (hlast'.mpr hms)]
    · rw [if_neg hms]
      show (if last = true then ReqStatus.ready else _) = _
      rw [if_neg (fun hl => hms (hlast'.mp hl)), h.status, if_neg hcons]
  · intro _
    have := hpart.pos
    show 0 < slot.dataOffset + m.partSize
    omega
  · by_cases hms : ms = []
    · rw [if_pos hms]
      have he := hend.mpr hms
      rw [h.size] at he
      rw [he, List.take_length, List.take_of_length_le (Nat.le_of_eq (hlen.trans holen))] at hprefix
      exact hprefix
    · rw [if_neg hms]
      exact hprefix

end LibfsSpecs
