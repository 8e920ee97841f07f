import Libfs.RingOrder
import Libfs.RingOwnership

/-! # Requests of several parts

    A further part is put into the slot of its request, which `handle_msg`
    looks for from the read index up to the write index.  Where the occupied
    slots go round the end of the ring there is nothing between the two, and
    the part is refused although its slot is there. -/

namespace LibfsSpecs

open LibfsHeap LibfsStdio LibfsCommon LibfsBuffer LibfsRun

/-- Where the read index stands before the write index, the slots of the
    window lie between the two. -/
theorem scan_of_window {g w n j : Nat} (hj : g ≤ j) (hjw : j < w) (hw : w ≤ g + n)
    (hlt : g % n < w % n) : g % n ≤ j % n ∧ j % n < w % n := by
  have hn : 0 < n := by omega
  have hgn : g % n < n := Nat.mod_lt _ hn
  obtain ⟨d, rfl⟩ := Nat.exists_eq_add_of_le hj
  obtain ⟨e, rfl⟩ := Nat.exists_eq_add_of_lt hjw
  have hsum : ∀ x, (g + x) % n = (g % n + x) % n := fun x => (Nat.mod_add_mod ..).symm
  rw [Nat.add_assoc, Nat.add_assoc, hsum] at hlt ⊢
  -- the window does not wrap
  have hfits : g % n + (d + (e + 1)) < n := by
    by_contra hge
    have hpast : n ≤ g % n + (d + (e + 1)) := Nat.not_lt.mp hge
    have hback : g % n + (d + (e + 1)) - n < n := by omega
    rw [Nat.mod_eq_sub_mod hpast, Nat.mod_eq_of_lt hback] at hlt
    omega
  have hfirst : g % n + d < n := by omega
  rw [hsum, Nat.mod_eq_of_lt hfits, Nat.mod_eq_of_lt hfirst]
  omega

/-! ## Calls that return zero -/

/-- The search ends at a slot with the number if there is one. -/
theorem findSeq_of_mem {rbuf : ReqBuffer} {seq : Int} {k : Nat} {req : ServiceReq}
    (hk : rbuf.reqs[k]? = some req) (hseq : req.seq = seq) (n : Nat) :
    ∀ i, i ≤ k → k < i + n → ∃ k', findSeq rbuf seq n i = .ok (some k') := by
  have hlt : k < rbuf.reqs.length := (List.getElem?_eq_some_iff.mp hk).1
  induction n with
  | zero =>
      intro i hi hin
      omega
  | succ n ih =>
      intro i hi hin
      have hslot : rbuf.slot i = .ok rbuf.reqs[i] := slot_ok.mpr (List.getElem?_eq_getElem (by omega))
      rw [findSeq, hslot, ok_bind]
      by_cases hfound : rbuf.reqs[i].seq = seq
      · exact ⟨i, if_pos hfound⟩
      · rw [if_neg hfound]
        refine ih (i + 1) ?_ (by omega)
        by_contra hgt
        obtain rfl : i = k := by omega
        rw [List.getElem?_eq_getElem hlt] at hk
        cases hk
        exact hfound hseq

/-- A further part with nothing between the indices. -/
theorem handleMsg_unfound {env : Env} {rbuf : ReqBuffer} {msg : RequestMsg}
    (hm : msg.multipart ≠ 0) (ho : msg.dataOffset ≠ 0) (hwrap : rbuf.wrIdx ≤ rbuf.rdIdx) :
    handleMsg env rbuf msg = .ok (-1, rbuf) := by
  refine handleMsg_of_none hm ho ?_
  rw [Nat.sub_eq_zero_of_le hwrap]
  rfl

/-- A further part that fits the slot that was found. -/
theorem handleMsg_found {env : Env} {rbuf : ReqBuffer} {msg : RequestMsg} {i : Nat}
    {req : ServiceReq} {old : Bytes} (hm : msg.multipart ≠ 0) (ho : msg.dataOffset ≠ 0)
    (hfind : findSeq rbuf msg.seq (rbuf.wrIdx - rbuf.rdIdx) rbuf.rdIdx = .ok (some i))
    (hlock : rbuf.lock = false) (hreq : rbuf.reqs[i]? = some req) (hold : req.data = some old)
    (hpart : msg.partSize ≤ msg.data.length) (hin : msg.dataOffset + msg.partSize ≤ old.length)
    (hle : u32 (req.dataOffset + msg.partSize) ≤ req.dataSize) :
    ∃ rbuf', handleMsg env rbuf msg = .ok (0, rbuf') := by
  have hsrc : slice msg.data 0 msg.partSize = .ok (msg.data.take msg.partSize) := by
    rw [slice_of_le (by omega), List.drop_zero]
  have hlen : (msg.data.take msg.partSize).length = msg.partSize := by
    rw [List.length_take]
    omega
  obtain ⟨data, hdata⟩ : ∃ data, poke old msg.dataOffset (msg.data.take msg.partSize) = .ok data :=
    ⟨_, poke_of_le (by omega)⟩
  have hlocked : mutexLock rbuf.lock = .ok () := mutexLock_ok.mpr hlock
  unfold handleMsg
  rw [if_neg hm, if_neg ho, hfind, ok_bind]
  show ∃ rbuf', (mutexLock rbuf.lock >>= _) = _
  rw [hlocked, ok_bind, slot_ok.mpr hreq, ok_bind]
  simp only [hold]
  rw [hsrc, ok_bind, hdata, ok_bind]
  by_cases heq : u32 (req.dataOffset + msg.partSize) = req.dataSize
  · rw [if_pos heq]
    exact ⟨_, rfl⟩
  · rw [if_neg heq, if_neg (by omega)]
    exact ⟨_, rfl⟩

/-- A message that takes a slot, when there is room. -/
theorem enqueue_of_room {rbuf : ReqBuffer} (h : HasRoom rbuf) (req : ServiceReq) :
    ∃ rbuf', enqueue rbuf (.ok req) = .ok rbuf' := by
  obtain ⟨e, he⟩ : ∃ e, rbuf.empty = e + 1 := ⟨rbuf.empty - 1, by have := h.empty; omega⟩
  unfold enqueue
  rw [he, h.unlocked]
  show ∃ rbuf', (rbuf.slot rbuf.wrIdx >>= _) = _
  rw [slot_ok.mpr (List.getElem?_eq_getElem h.inside), ok_bind]
  exact ⟨_, rfl⟩

/-- The first message of a request is handled if there is room. -/
theorem handleMsg_first {env : Env} {rbuf : ReqBuffer} (h : HasRoom rbuf) {c : ClientReq}
    {m : RequestMsg} {rest : List RequestMsg} (hm : requestMessages c = m :: rest) :
    ∃ rbuf', handleMsg env rbuf (received m) = .ok (0, rbuf') := by
  have hdata : (received m).data.length = 4068 := pad_length ..
  unfold handleMsg
  rcases requestMessages_cases c with ⟨m', he, hsingle⟩ | ⟨m', ms, he, -, hcont⟩
  · -- the request is one message
    obtain ⟨rfl, -⟩ := List.cons.inj (hm.symm.trans he)
    have hroom := hsingle.room
    have hsize : (received m).dataSize = c.payload.length := hsingle.size
    have hmulti : (received m).multipart = 0 := hsingle.multipart
    rw [if_pos hmulti]
    have hslice : slice (received m).data 0 (received m).dataSize
        = .ok ((received m).data.take (received m).dataSize) := by
      rw [slice_of_le, List.drop_zero]
      rw [hdata, hsize]
      simp only [maxMsgDataSize, maxMsgSize] at hroom
      omega
    obtain ⟨data, hpoke⟩ : ∃ data, poke (env.malloc (received m).dataSize) 0
        ((received m).data.take (received m).dataSize) = .ok data := by
      refine ⟨_, poke_of_le ?_⟩
      rw [Env.malloc_length, List.length_take]
      omega
    rw [hslice, ok_bind, hpoke, ok_bind]
    obtain ⟨rbuf', henq⟩ := enqueue_of_room h ⟨(received m).seq, (received m).type, .ready,
      (received m).dataSize, 0, some data⟩
    rw [henq]
    exact ⟨_, rfl⟩
  · -- it is the first of its parts
    obtain ⟨rfl, -⟩ := List.cons.inj (hm.symm.trans he)
    have hpart := hcont.1
    have hin := hpart.inside
    have hroom := hpart.room
    have hoff : (received m).dataOffset = 0 := hpart.offset
    have hsize : (received m).dataSize = c.payload.length := hpart.size
    have hmulti : (received m).multipart ≠ 0 := hpart.multipart
    rw [if_neg hmulti, if_pos hoff]
    have hslice : slice (received m).data 0 (received m).partSize
        = .ok ((received m).data.take (received m).partSize) := by
      rw [slice_of_le, List.drop_zero]
      rw [hdata]
      show 0 + m.partSize ≤ 4068
      simp only [maxMsgDataSize, maxMsgSize] at hroom
      omega
    obtain ⟨data, hpoke⟩ : ∃ data, poke (env.malloc (received m).dataSize) (received m).dataOffset
        ((received m).data.take (received m).partSize) = .ok data := by
      refine ⟨_, poke_of_le ?_⟩
      rw [Env.malloc_length, List.length_take, hoff, hsize]
      show 0 + min m.partSize _ ≤ _
      omega
    rw [hslice, ok_bind, hpoke, ok_bind]
    obtain ⟨rbuf', henq⟩ := enqueue_of_room h ⟨(received m).seq, (received m).type, .inProgress,
      (received m).dataSize, (received m).partSize, some data⟩
    rw [henq]
    exact ⟨_, rfl⟩

/-! ## Runs with the worker -/

variable {ι : Type} {reqs : ι → ClientReq} {n : Nat}

/-- Nothing that waits to be fetched lies in the slot the worker completes. -/
theorem Accounted.complete {s : Ring ι} (h : Accounted reqs n s) {k : Nat}
    (hnext : (k + 1) % n = s.buf.rdIdx) (hspare : 0 < s.buf.empty) (req : ServiceReq) :
    Accounted reqs n { s with buf := { s.buf with reqs := s.buf.reqs.set k req } } := by
  have hempty := h.empty
  refine ⟨h.size, List.length_set.trans h.length, h.unlocked, h.write, h.read, h.empty, h.full,
    h.once, h.distinct, h.finished, h.fresh, h.further, ?_, h.order⟩
  intro i r hi hr
  change s.fetched.length ≤ i at hi
  obtain ⟨slot, hslot, hholds⟩ := h.held i r hi hr
  have hlt : i < s.arrived.length := (List.getElem?_eq_some_iff.mp hr).1
  refine ⟨slot, ?_, hholds⟩
  show (s.buf.reqs.set k req)[i % n]? = _
  rw [List.getElem?_set_ne]
  · exact hslot
  · rintro rfl
    rw [Nat.mod_add_mod, h.read] at hnext
    have hturn := turn_inj (g := s.fetched.length) (i := i + 1) (j := s.fetched.length) (n := n)
      (by omega) (by omega) (Nat.le_refl _) (by omega) hnext
    omega

/-- The accounts of the ring, the worker's claim on its slot, and a free slot
    besides that one. -/
structure Works (reqs : ι → ClientReq) (n : Nat) (s : Service ι) : Prop where
  accounted : Accounted reqs n s.ring
  held : KeepsHeld n s
  spare : s.worker ≠ .idle → 0 < s.ring.buf.empty

/-- A message that takes a slot from a busy worker leaves another one free. -/
theorem Works.deliver [DecidableEq ι] (hseq : Function.Injective fun r => (reqs r).seq)
    {s s' : Service ι} (h : Works reqs n s) {env : Env} {r : ι}
    (hg : LeavesRoom s (.deliver env r)) (hstep : ServiceStep s (.deliver env r) s') :
    Works reqs n s' := by
  have hheld := h.held.deliver ⟨hg, hstep⟩
  cases hstep with
  | deliver hring =>
      cases hring with
      | @deliver _ _ m rest buf hm hb =>
          have hhandled := handleMsg_ok hb
          constructor
          case accounted => exact h.accounted.deliver hseq hm hb
          case held => exact hheld
          case spare =>
            intro hbusy
            have hroom := h.spare hbusy
            show 0 < buf.empty
            by_cases htake : m.multipart = 0 ∨ m.dataOffset = 0
            · have hmany := hg m rest hm htake hbusy
              have hone : s.ring.buf.empty ≠ 1 := by
                intro he
                rw [he] at hmany
                exact hmany rfl
              have hdown := hhandled.takes_slot htake
              change buf.empty = s.ring.buf.empty - 1 at hdown
              omega
            · rw [hhandled.keeps_slots htake]
              exact hroom

theorem works_of_run [DecidableEq ι] (hseq : Function.Injective fun r => (reqs r).seq)
    {buf : ReqBuffer} (hb : reqBufferCreate n = some buf) {es : List (ServiceEvent ι)}
    {s : Service ι}
    (hr : Run (guarded LeavesRoom ServiceStep) (Service.init reqs buf) es s) : Works reqs n s := by
  refine hr.invariant (Works reqs n) ⟨accounted_init hb, keepsHeld_init hb, ?_⟩ ?_
  · intro hbusy
    exact absurd rfl hbusy
  · rintro s e s' h ⟨hg, hstep⟩
    cases hstep with
    | deliver hring => exact h.deliver hseq hg (.deliver hring)
    | fetch hw hb' hs =>
        refine ⟨h.accounted.fetch hb' hs, h.held.fetch hw hb' hs, ?_⟩
        intro _
        obtain ⟨-, -, -, rfl⟩ := getServiceReq_ok hb'
        exact Nat.succ_pos _
    | skip hw hs hp =>
        refine ⟨h.accounted, h.held.skip hw hs hp, ?_⟩
        intro hbusy
        exact absurd rfl hbusy
    | execute hw hs hp =>
        refine ⟨h.accounted, h.held.execute hw hs hp, ?_⟩
        intro _
        refine h.spare ?_
        rw [hw]
        exact Worker.noConfusion
    | complete hw hs hb' =>
        have hheld := h.held.complete hw hs hb'
        have hspare : 0 < s.ring.buf.empty := by
          refine h.spare ?_
          rw [hw]
          exact Worker.noConfusion
        obtain ⟨-, hnext⟩ := h.held.next _ (by rw [hw]; rfl)
        unfold completeReq at hb'
        obtain ⟨req, -, hb'⟩ := bind_ok_iff.mp hb'
        cases hb'
        refine ⟨h.accounted.complete hnext hspare _, hheld, ?_⟩
        intro hbusy
        exact absurd rfl hbusy

/-! ## The parts of a request -/

/-- The next part of a request whose slot was not fetched. -/
theorem Accounted.next_part {s : Ring ι} (hseq : Function.Injective fun r => (reqs r).seq)
    (h : Accounted reqs n s) {j : Nat} {r : ι} (hj : s.fetched.length ≤ j)
    (hr : s.arrived[j]? = some r) {m : RequestMsg} {rest : List RequestMsg}
    (hm : s.pending r = m :: rest) (env : Env) :
    (∃ buf, handleMsg env s.buf (received m) = .ok (0, buf)) ↔ s.buf.rdIdx < s.buf.wrIdx := by
  have hmem : r ∈ s.arrived := List.mem_of_getElem? hr
  obtain ⟨hmulti, hoff, hmseq⟩ := h.further r hmem m (by rw [hm]; exact List.mem_cons_self ..)
  constructor
  · rintro ⟨buf, hb⟩
    by_contra hwrap
    have hunfound : handleMsg env s.buf (received m) = .ok (-1, s.buf) :=
      handleMsg_unfound hmulti hoff (Nat.not_lt.mp hwrap)
    rw [hunfound] at hb
    have hone : (-1 : Int) = 0 := congrArg Prod.fst (Except.ok.inj hb)
    exact absurd hone (by decide)
  · intro hlt
    have hjlt : j < s.arrived.length := (List.getElem?_eq_some_iff.mp hr).1
    have hempty := h.empty
    obtain ⟨slot, hslot, hholds⟩ := h.held j r hj hr
    have hin : s.buf.rdIdx ≤ j % n ∧ j % n < s.buf.wrIdx := by
      rw [h.read, h.write] at hlt ⊢
      exact scan_of_window hj hjlt (by omega) hlt
    obtain ⟨k, hk⟩ := findSeq_of_mem hslot (hholds.seq.trans hmseq.symm)
      (s.buf.wrIdx - s.buf.rdIdx) s.buf.rdIdx hin.1 (by omega)
    obtain ⟨h1, h2, req, hreq, hrseq⟩ := findSeq_ok _ _ hk
    obtain ⟨_, _, _, _, hfound⟩ := h.slot_of_seq hseq h1 (by omega) hreq (hrseq.trans hmseq)
    rw [hm] at hfound
    obtain ⟨hpart, -⟩ := hfound.rest (List.cons_ne_nil m rest)
    obtain ⟨old, hold, holdlen, -⟩ := hfound.data
    have hroom := hpart.room
    have hend := hpart.inside
    have hshort := (reqs r).short
    refine handleMsg_found hmulti hoff hk h.unlocked hreq hold ?_ ?_ ?_
    · rw [show (received m).data.length = 4068 from pad_length ..]
      show m.partSize ≤ 4068
      simp only [maxMsgDataSize, maxMsgSize] at hroom
      omega
    · show m.dataOffset + m.partSize ≤ old.length
      rw [hpart.offset, holdlen]
      exact hend
    · show u32 (req.dataOffset + m.partSize) ≤ req.dataSize
      rw [hfound.size, u32_of_lt (by omega)]
      exact hend

/-- The last part of a request completes its slot. -/
theorem Accounted.last_part {s : Ring ι} (hseq : Function.Injective fun r => (reqs r).seq)
    (h : Accounted reqs n s) {j : Nat} {r : ι} (hr : s.arrived[j]? = some r) {m : RequestMsg}
    (hm : s.pending r = [m]) {env : Env} {buf : ReqBuffer}
    (hb : handleMsg env s.buf (received m) = .ok (0, buf)) :
    ∃ slot, buf.reqs[j % n]? = some slot ∧ slot.reqStatus = .ready ∧
      slot.dataOffset = slot.dataSize ∧ slot.data = some (reqs r).payload := by
  have hmem : r ∈ s.arrived := List.mem_of_getElem? hr
  obtain ⟨hmulti, hoff, hmseq⟩ := h.further r hmem m (by rw [hm]; exact List.mem_singleton_self m)
  cases handleMsg_ok hb with
  | single h0 => exact absurd h0 hmulti
  | first _ h0 => exact absurd h0 hoff
  | @next i req old data src last _ _ h1 h2 hreq hrseq hold hsrc hdata hlast _ =>
      obtain ⟨j', -, rfl, hr', hholds⟩ := h.slot_of_seq hseq h1 h2 hreq (hrseq.trans hmseq)
      obtain rfl : j = j' :=
        (List.getElem?_inj (List.getElem?_eq_some_iff.mp hr).1 h.once).mp (hr.trans hr'.symm)
      rw [hm] at hholds
      obtain ⟨hlast', hholds'⟩ := hholds.next hold hsrc hdata hlast
      obtain ⟨bytes, hbytes, -, hall⟩ := hholds'.data
      rw [if_pos rfl] at hall
      refine ⟨_, List.getElem?_set_self (List.getElem?_eq_some_iff.mp hreq).1, hholds'.status, ?_, ?_⟩
      · rw [hlast'.mpr rfl] at hlast
        exact of_decide_eq_true hlast.symm
      · rw [← hall]
        exact hbytes

/-- In every state of a run in which the ring is not filled while the worker is
    busy, `handle_msg` returns zero on the first message of a request if there
    is a free slot; on a further part of a request whose slot was not fetched
    it returns zero exactly when the read index stands before the write index;
    and the last part leaves the whole request in its slot. -/
theorem parts_reassembled [DecidableEq ι] (hseq : Function.Injective fun r => (reqs r).seq)
    {buf : ReqBuffer} (hb : reqBufferCreate n = some buf) {es : List (ServiceEvent ι)}
    {s : Service ι} (hr : Run (guarded LeavesRoom ServiceStep) (Service.init reqs buf) es s) :
    (∀ r m rest, s.ring.pending r = m :: rest → r ∉ s.ring.arrived → 0 < s.ring.buf.empty →
      ∀ env, ∃ buf', handleMsg env s.ring.buf (received m) = .ok (0, buf')) ∧
    (∀ j r m rest, s.ring.fetched.length ≤ j → s.ring.arrived[j]? = some r →
      s.ring.pending r = m :: rest → ∀ env,
        ((∃ buf', handleMsg env s.ring.buf (received m) = .ok (0, buf')) ↔
          s.ring.buf.rdIdx < s.ring.buf.wrIdx)) ∧
    ∀ j r m, s.ring.fetched.length ≤ j → s.ring.arrived[j]? = some r → s.ring.pending r = [m] →
      ∀ env buf', handleMsg env s.ring.buf (received m) = .ok (0, buf') →
        ∃ slot, buf'.reqs[j % n]? = some slot ∧ slot.reqStatus = .ready ∧
          slot.dataOffset = slot.dataSize ∧ slot.data = some (reqs r).payload := by
  have hworks := works_of_run hseq hb hr
  have h := hworks.accounted
  refine ⟨?_, ?_, ?_⟩
  · intro r m rest hm hnew hfree env
    have hmsgs := h.fresh r hnew
    rw [hm] at hmsgs
    refine handleMsg_first ⟨hfree, h.unlocked, ?_⟩ hmsgs.symm
    rw [hworks.held.turns.length]
    exact hworks.held.turns.write
  · intro j r m rest hj hr' hm env
    exact h.next_part hseq hj hr' hm env
  · intro j r m _ hr' hm env buf' hb'
    exact h.last_part hseq hr' hm hb'

/-- The second part of the request of two, when its first took slot zero. -/
theorem parts_of_twoClients : ∃ (s : Service Bool) (m : RequestMsg) (env : Env) (buf : ReqBuffer)
    (slot : ServiceReq), s.ring.pending true = [m] ∧
      handleMsg env s.ring.buf (received m) = .ok (0, buf) ∧ buf.reqs[0]? = some slot ∧
      slot.reqStatus = .ready ∧ slot.data = some (twoClients true).payload := by
  let buf : ReqBuffer := ⟨false, 2, 0, 0, 0, 2, [zeroReq, zeroReq]⟩
  let env : Env := ⟨fun _ => ⟨0, 0⟩, fun _ => 0⟩
  have hplayed : (play Ring.step (Ring.init twoClients buf) [.deliver env true]).map
      (fun s => (s.buf.rdIdx, s.buf.wrIdx, s.arrived, (s.pending true).length,
        s.fetched.length)) = some (0, 1, [true], 1, 0) := by decide +kernel
  obtain ⟨ring, hplay, hat⟩ := Option.map_eq_some_iff.mp hplayed
  obtain ⟨_, h1, h2⟩ := Option.bind_eq_some_iff.mp hplay
  cases h2
  obtain ⟨hrd, hwr, harrived, hpending, hfetched⟩ :
      ring.buf.rdIdx = 0 ∧ ring.buf.wrIdx = 1 ∧ ring.arrived = [true] ∧
        (ring.pending true).length = 1 ∧ ring.fetched.length = 0 := by
    simpa only [Prod.mk.injEq] using hat
  obtain ⟨m, hm⟩ := List.length_eq_one_iff.mp hpending
  have hidle : LeavesRoom (Service.init twoClients buf) (.deliver env true) :=
    fun _ _ _ _ hbusy => absurd rfl hbusy
  have hrun : Run (guarded LeavesRoom ServiceStep) (Service.init twoClients buf) _
      ⟨ring, .idle, [], []⟩ := .next .start ⟨hidle, .deliver (Ring.step_some h1)⟩
  obtain ⟨-, hfurther, hlast⟩ := parts_reassembled (n := 2) twoClients_seq rfl hrun
  have hwaits : ring.fetched.length ≤ 0 := Nat.le_of_eq hfetched
  have hfirst : ring.arrived[0]? = some true := by rw [harrived]; rfl
  obtain ⟨buf', hb⟩ := (hfurther 0 true m [] hwaits hfirst hm env).mpr (by
    show ring.buf.rdIdx < ring.buf.wrIdx
    omega)
  obtain ⟨slot, hslot, hready, -, hdata⟩ := hlast 0 true m hwaits hfirst hm env buf' hb
  exact ⟨_, m, env, buf', slot, hm, hb, hslot, hready, hdata⟩

/-- In a ring of two slots, a request of two parts whose first took the last
    slot: the write index is back at zero, and the second part is refused. -/
theorem part_refused_at_end : ¬ ∀ (reqs : Bool → ClientReq) (n : Nat) (buf : ReqBuffer)
    (es : List (ServiceEvent Bool)) (s : Service Bool), (Function.Injective fun r => (reqs r).seq) →
    reqBufferCreate n = some buf →
    Run (guarded LeavesRoom ServiceStep) (Service.init reqs buf) es s →
    ∀ (j : Nat) (r : Bool) m rest, s.ring.fetched.length ≤ j → s.ring.arrived[j]? = some r →
      s.ring.pending r = m :: rest → ∀ env,
        ∃ buf', handleMsg env s.ring.buf (received m) = .ok (0, buf') := by
  intro hclaim
  let buf : ReqBuffer := ⟨false, 2, 0, 0, 0, 2, [zeroReq, zeroReq]⟩
  let env : Env := ⟨fun _ => ⟨0, 0⟩, fun _ => 0⟩
  have hplayed : (play Ring.step (Ring.init twoClients buf)
      [.deliver env false, .fetch, .deliver env true]).map
        (fun s => (s.buf.wrIdx, s.arrived, s.fetched.length,
          (s.pending true).map fun m => (m.multipart, m.dataOffset)))
      = some (0, [false, true], 1, [(2, 4064)]) := by decide +kernel
  have hbefore : (play Ring.step (Ring.init twoClients buf) [.deliver env false, .fetch]).map
      (fun s => (s.buf.empty, s.buf.size)) = some (2, 2) := by decide +kernel
  obtain ⟨ring, hplayed₃, hat⟩ := Option.map_eq_some_iff.mp hplayed
  obtain ⟨ring₁, h1, hplay⟩ := Option.bind_eq_some_iff.mp hplayed₃
  obtain ⟨ring₂, h2, hplay⟩ := Option.bind_eq_some_iff.mp hplay
  obtain ⟨_, h3, h4⟩ := Option.bind_eq_some_iff.mp hplay
  cases h4
  obtain ⟨hwr, harrived, hfetched, hpending⟩ : ring.buf.wrIdx = 0 ∧
      ring.arrived = [false, true] ∧ ring.fetched.length = 1 ∧
      (ring.pending true).map (fun m => (m.multipart, m.dataOffset)) = [(2, 4064)] := by
    simpa only [Prod.mk.injEq] using hat
  obtain ⟨hempty, hsize⟩ : ring₂.buf.empty = 2 ∧ ring₂.buf.size = 2 := by
    have hplay₂ : play Ring.step (Ring.init twoClients buf) [.deliver env false, .fetch] = some ring₂ :=
      Option.bind_eq_some_iff.mpr ⟨ring₁, h1, Option.bind_eq_some_iff.mpr ⟨ring₂, h2, rfl⟩⟩
    rw [hplay₂] at hbefore
    simpa only [Option.map_some, Option.some.injEq, Prod.mk.injEq] using hbefore
  -- one slot is free besides the one the worker holds
  have hidle : LeavesRoom (Service.init twoClients buf) (.deliver env false) :=
    fun _ _ _ _ hbusy => absurd rfl hbusy
  obtain ⟨k, slot, -, hsecond⟩ := ServiceStep.of_fetch (s := ⟨ring₁, .idle, [], []⟩) rfl
    (Ring.step_some h2)
  have hspare : LeavesRoom (⟨ring₂, .given k, [], []⟩ : Service Bool) (.deliver env true) := by
    intro m rest _ _ _
    show ring₂.buf.empty % ring₂.buf.size ≠ 1 % ring₂.buf.size
    rw [hempty, hsize]
    decide
  have hfree : LeavesRoom (⟨ring₁, .idle, [], []⟩ : Service Bool) .fetch := trivial
  have hrun : Run (guarded LeavesRoom ServiceStep) (Service.init twoClients buf) _
      ⟨ring, .given k, [], []⟩ :=
    .next (.next (.next .start ⟨hidle, .deliver (Ring.step_some h1)⟩) ⟨hfree, hsecond⟩)
      ⟨hspare, .deliver (Ring.step_some h3)⟩
  obtain ⟨m, hm, hfields⟩ := List.map_eq_singleton_iff.mp hpending
  obtain ⟨hmulti, hoff⟩ : m.multipart = 2 ∧ m.dataOffset = 4064 := by
    simpa only [Prod.mk.injEq] using hfields
  obtain ⟨buf', hb⟩ := hclaim twoClients 2 buf _ _ twoClients_seq rfl hrun 1 true m []
    (Nat.le_of_eq hfetched) (by show ring.arrived[1]? = _; rw [harrived]; rfl) hm env
  have hrefused : handleMsg env ring.buf (received m) = .ok (-1, ring.buf) := by
    refine handleMsg_unfound ?_ ?_ ?_
    · show m.multipart ≠ 0
      rw [hmulti]
      decide
    · show m.dataOffset ≠ 0
      rw [hoff]
      decide
    · rw [hwr]
      exact Nat.zero_le _
  have hone : (-1 : Int) = 0 := congrArg Prod.fst (Except.ok.inj (hrefused.symm.trans hb))
  exact absurd hone (by decide)

end LibfsSpecs
