import Libfs.Linearized
import Mathlib.Algebra.Order.BigOperators.Group.List

/-! # Every call returns

    When the requests fit a message each, nothing in the system waits for
    something that does not come: as long as a call has not returned, one of
    the threads or one of the calls can take a step, and every step brings the
    calls that were made closer to their end.  A request of several messages
    may not get this far, since the receiver gives up where the ring buffer
    wraps around. -/

namespace LibfsSpecs

open LibfsHeap LibfsStdio LibfsCommon LibfsInode LibfsOperations LibfsRun LibfsBuffer LibfsQueue
  LibfsRequests

variable {ι : Type} [DecidableEq ι] {limit : QueueLimit} {calls : ι → LibCall} {n : Nat}
  {buf : ReqBuffer} {s : System ι} {es : List (SystemEvent ι)}

/-! ## Requests of one message -/

/-- All requests fit a message. -/
def AllShort (calls : ι → LibCall) : Prop :=
  ∀ r, (sentBy calls r).payload.length ≤ maxMsgDataSize

/-- A short request is one message, and that is no part of another. -/
theorem requestMessages_short {c : ClientReq} (h : c.payload.length ≤ maxMsgDataSize) :
    ∃ m, requestMessages c = [m] ∧ m.multipart = 0 := by
  refine ⟨requestPart c 0 c.payload.length, ?_, ?_⟩
  · rw [requestMessages, numOfParts_short h]
    rfl
  · rw [requestPart, numOfParts_short h]
    rfl

/-- A short request was received, or nothing of it. -/
theorem pending_of_run (hshort : AllShort calls)
    (hr : Run (guarded KeepsOrder (SystemStep limit calls)) (System.init calls buf) es s) (r : ι) :
    s.service.ring.pending r = [] ∨
      s.service.ring.pending r = requestMessages (sentBy calls r) := by
  refine hr.invariant (fun s => ∀ r, s.service.ring.pending r = [] ∨
    s.service.ring.pending r = requestMessages (sentBy calls r)) (fun r => Or.inr rfl) ?_ r
  rintro s e s' h ⟨-, hs⟩ r
  cases hs with
  | @deliver _ r' _ hcalled hs =>
      obtain ⟨m, rest, buf', hm, -, rfl⟩ := hs.delivered
      show Function.update s.service.ring.pending r' rest r = [] ∨
        Function.update s.service.ring.pending r' rest r = _
      by_cases hr : r = r'
      · -- what was left of it was its only message
        obtain rfl := hr
        obtain ⟨m', hm', -⟩ := requestMessages_short (hshort r)
        rcases h r with hnone | hall
        · rw [hnone] at hm
          cases hm
        · rw [hall, hm', List.cons.injEq] at hm
          rw [Function.update_self]
          exact Or.inl hm.2.symm
      · rw [Function.update_of_ne hr]
        exact h r
  | fetch hs =>
      cases hs with
      | fetch => exact h r
  | skip hs =>
      cases hs with
      | skip => exact h r
  | execute _ _ _ hs _ =>
      cases hs with
      | execute => exact h r
  | complete _ hs =>
      cases hs with
      | complete => exact h r
  | _ => exact h r

/-- A short request that came in is complete. -/
theorem arrived_complete (hshort : AllShort calls) (ht : Threads calls n buf s.service)
    (hpending : ∀ r, s.service.ring.pending r = [] ∨
      s.service.ring.pending r = requestMessages (sentBy calls r)) {r : ι}
    (hr : r ∈ s.service.ring.arrived) : r ∈ s.service.ring.completed := by
  refine (ht.works.accounted.finished r).mpr ⟨hr, ?_⟩
  rcases hpending r with hnone | hall
  · exact hnone
  · obtain ⟨m, hm, hsingle⟩ := requestMessages_short (hshort r)
    have hmem : m ∈ s.service.ring.pending r := by
      rw [hall, hm]
      exact List.mem_singleton_self m
    exact absurd hsingle (ht.works.accounted.further r hr m hmem).1

/-! ## Something can go on -/

/-- The worker can serve the request it was given. -/
def Servable (calls : ι → LibCall) (s : System ι) : Prop :=
  ∀ k slot r, s.service.worker = .given k → s.service.ring.buf.slot k = .ok slot →
    (calls r).seq = slot.seq → Admissible s.files (calls r).request

/-- A call begins with this step. -/
def SystemEvent.begins : SystemEvent ι → Bool
  | .call _ => true
  | _ => false

/-- A step that does not begin a call. -/
def GoesOn (calls : ι → LibCall) (s : System ι) (e : SystemEvent ι) : Prop :=
  Regular calls s e ∧ e.begins = false

/-- The worker serves the request it was given. -/
theorem given_goes_on (hadm : Run (guarded Admits Step) State.init (s.log.map Prod.snd) s.files)
    (ht : Threads calls n buf s.service) (hserve : Servable calls s) {k : Nat}
    (hw : s.service.worker = .given k) :
    ∃ r s', Admissible s.files (calls r).request ∧
      SystemStep limit calls s (.execute stillEnv r) s' := by
  obtain ⟨slot, r, hslot, -, hholds⟩ := ht.next hw
  have hready : slot.reqStatus = .ready := hholds.status
  have hadmits := hserve k slot r hw hslot hholds.seq.symm
  obtain ⟨-, f, -, hv, hrep⟩ := refines_of_run hadm
  obtain ⟨files, resp, -, hdone, -⟩ :=
    served (refines_of_run hadm).1 hrep hv stillEnv hadmits
  rw [← operate_holds hholds] at hdone
  exact ⟨r, _, hadmits, .execute hw hslot hholds.seq.symm (.execute hw hslot hready) hdone⟩

/-- The worker sends what it has to say, and gives the slot back, or it waits
    for room in the queue. -/
theorem served_goes_on (limit : QueueLimit) (ht : Threads calls n buf s.service) {k : Nat}
    (hw : s.service.worker = .served k) :
    (∃ e s', (e = .send ∨ e = .complete) ∧ SystemStep limit calls s e s') ∨
      s.sendBlocked limit = true := by
  cases hunsent : s.unsent with
  | cons m ms =>
      cases hroom : limit.takes (s.queue.map Prod.snd) m.2 with
      | true => exact Or.inl ⟨.send, _, Or.inl rfl, .send hunsent hroom⟩
      | false =>
          rw [System.sendBlocked_cons hunsent, hroom]
          exact Or.inr rfl
  | nil =>
      obtain ⟨slot, -, hslot, -⟩ := ht.works.held.owns.served k hw
      have hok : s.service.ring.buf.slot k = .ok slot := slot_ok.mpr hslot
      obtain ⟨buf', hdone⟩ : ∃ buf', completeReq s.service.ring.buf k = .ok buf' := by
        rw [completeReq, hok]
        exact ⟨_, rfl⟩
      exact Or.inl ⟨.complete, _, Or.inr rfl, .complete hunsent (.complete hw hok hdone)⟩

/-- Served calls were made. -/
theorem Linear.logged_called (ht : Threads calls n buf s.service) (h : Linear calls s) {r : ι}
    {e : Event} (he : (r, e) ∈ s.log) : r ∈ s.called := by
  have hmem : r ∈ s.log.map Prod.fst := List.mem_map.mpr ⟨_, he, rfl⟩
  rw [h.order] at hmem
  exact h.called r ((ht.works.accounted.finished r).mp (List.mem_of_mem_take hmem)).1

/-- The call a message in the queue answers waits for one, and takes the first
    of its type. -/
theorem queued_goes_on (limit : QueueLimit) (ht : Threads calls n buf s.service)
    (h : Linear calls s) {x : ι × ResponseMsg} (hx : x ∈ s.queue) :
    ∃ s', SystemStep limit calls s (.receive x.1) s' := by
  have hway : x ∈ s.queue ++ s.unsent := List.mem_append_left _ hx
  obtain ⟨e, he⟩ := h.logged hway
  obtain ⟨t, t', hh⟩ := handled_of_log h.run h.asked he
  have hans := h.answered x.1 e he
  have hown : s.own x.1 ≠ [] := List.ne_nil_of_mem (mem_own hway)
  have hblocked : (calls x.1).receive (s.got x.1) = .error .blocked :=
    receiveCall_blocked (calls x.1).inRange hh ⟨s.own x.1, hans⟩
      (fun heq => hown (List.append_cancel_left (hans.trans (heq.symm.trans
        (List.append_nil _).symm)))) (calls x.1).env (calls x.1).errno (calls x.1).buf
  have htype : ofType (calls x.1).seq x.2 = true := by
    rw [ofType, h.typed hway, decide_eq_true rfl, Bool.or_true]
  cases htake : take (fun y => ofType (calls x.1).seq y.2) s.queue with
  | none => exact absurd htype (List.filter_eq_nil_iff.mp (take_eq_none.mp htake) x hx)
  | some p =>
      obtain ⟨⟨c, m⟩, queue⟩ := p
      exact ⟨_, .receive (h.logged_called ht he) hblocked htake⟩

/-- While the worker waits for room, a call takes a message. -/
theorem blocked_goes_on (ht : Threads calls n buf s.service) (h : Linear calls s)
    (hblocked : s.sendBlocked limit = true) : ∃ r s', SystemStep limit calls s (.receive r) s' := by
  obtain ⟨x, queue, hqueue⟩ := List.exists_cons_of_ne_nil (System.queue_of_blocked hblocked)
  have hx : x ∈ s.queue := hqueue ▸ List.mem_cons_self ..
  obtain ⟨s', hs⟩ := queued_goes_on limit ht h hx
  exact ⟨x.1, s', hs⟩

/-- A call whose answer was given takes its next message, or returns. -/
theorem answered_goes_on (limit : QueueLimit) (ht : Threads calls n buf s.service)
    (h : Linear calls s) (hunsent : s.unsent = []) {r : ι} {e : Event} (he : (r, e) ∈ s.log)
    (hopen : s.returned r = none) :
    ∃ ev s', (ev = .receive r ∨ ev = .return r) ∧ SystemStep limit calls s ev s' := by
  obtain ⟨t, t', hh⟩ := handled_of_log h.run h.asked he
  have hans := h.answered r e he
  by_cases hown : s.own r = []
  · rw [hown, List.append_nil] at hans
    have hall : (s.got r).filter (ofType (calls r).seq) = s.got r := by
      refine List.filter_eq_self.mpr fun m hm => ?_
      have htype : m.seq = (calls r).seq := LibCall.answer_seq (hans ▸ hm)
      rw [ofType, htype, decide_eq_true rfl, Bool.or_true]
    obtain ⟨queue', hrcv, -⟩ := receiveCall_sent (calls r).inRange hh (hall.trans hans)
      (calls r).env (calls r).errno (calls r).room
    exact ⟨.return r, _, Or.inr rfl, .return hopen hrcv⟩
  · -- the message in front of those on their way is in the queue
    obtain ⟨m, ms, hm⟩ := List.exists_cons_of_ne_nil hown
    have hmem : m ∈ s.own r := hm ▸ List.mem_cons_self ..
    rw [System.own, hunsent, List.append_nil] at hmem
    obtain ⟨x, hx, -⟩ := List.mem_map.mp hmem
    obtain ⟨hxq, hxr⟩ := List.mem_filter.mp hx
    obtain rfl : x.1 = r := of_decide_eq_true hxr
    obtain ⟨s', hs⟩ := queued_goes_on limit ht h hxq
    exact ⟨.receive x.1, s', Or.inl rfl, hs⟩

/-- A call that was made and not answered has its request received next. -/
theorem unreceived_goes_on (hshort : AllShort calls) (hb : reqBufferCreate n = some buf)
    (ht : Threads calls n buf s.service)
    (hpending : ∀ r, s.service.ring.pending r = [] ∨
      s.service.ring.pending r = requestMessages (sentBy calls r))
    (hw : s.service.worker = .idle)
    (hall : s.service.ring.fetched.length = s.service.ring.completed.length) {r : ι}
    (hcalled : r ∈ s.called) (hr : r ∉ s.service.ring.completed) :
    ∃ e s', guarded (GoesOn calls) (SystemStep limit calls) s e s' := by
  have hacc := ht.works.accounted
  have hnew : r ∉ s.service.ring.arrived :=
    fun hmem => hr (arrived_complete hshort ht hpending hmem)
  obtain ⟨m, hm, -⟩ := requestMessages_short (hshort r)
  have hpend : s.service.ring.pending r = [m] := (hacc.fresh r hnew).trans hm
  -- all that came in was fetched, so that the ring buffer is empty
  have hsame : s.service.ring.arrived.length ≤ s.service.ring.fetched.length := by
    rw [hall]
    exact (hacc.once.subperm fun x hx => arrived_complete hshort ht hpending hx).length_le
  have hn : 0 < n := by
    by_contra hzero
    rw [reqBufferCreate, if_neg hzero] at hb
    cases hb
  have hroom : HasRoom s.service.ring.buf := by
    have hempty := hacc.empty
    exact ⟨by omega, hacc.unlocked, ht.works.held.turns.length ▸ ht.works.held.turns.write⟩
  obtain ⟨buf', hbuf'⟩ : ∃ buf', handleMsg stillEnv s.service.ring.buf (received m)
      = .ok (0, buf') := handleMsg_first hroom hm
  refine ⟨.deliver stillEnv r, _, ⟨⟨⟨?_, ?_⟩, trivial⟩, rfl⟩,
    .deliver hcalled (.deliver (.deliver hpend hbuf'))⟩
  · intro _ _ i r' hi hr' _
    have hlt := (List.getElem?_eq_some_iff.mp hr').1
    omega
  · exact fun _ _ _ _ hbusy => absurd hw hbusy

/-- As long as a call has not returned, there is a step that brings it on. -/
theorem call_goes_on (hshort : AllShort calls) (hseq : Function.Injective fun r => (calls r).seq)
    (hb : reqBufferCreate n = some buf)
    (hr : Run (guarded (Regular calls) (SystemStep limit calls)) (System.init calls buf) es s)
    (hserve : Servable calls s) {r : ι} (hcalled : r ∈ s.called) (hopen : s.returned r = none) :
    ∃ e s', guarded (GoesOn calls) (SystemStep limit calls) s e s' := by
  obtain ⟨ht, h⟩ := linear_of_run hseq hb (Regular.keepsOrder hr)
  have hpending := pending_of_run hshort (Regular.keepsOrder hr)
  cases hw : s.service.worker with
  | given k =>
      obtain ⟨r', s', hadmits, hs⟩ := given_goes_on (admitted_of_run hseq hb hr) ht hserve hw
      exact ⟨.execute _ _, s', ⟨⟨trivial, hadmits⟩, rfl⟩, hs⟩
  | served k =>
      rcases served_goes_on limit ht hw with ⟨e, s', rfl | rfl, hs⟩ | hblocked
      · exact ⟨.send, s', ⟨⟨trivial, trivial⟩, rfl⟩, hs⟩
      · exact ⟨.complete, s', ⟨⟨trivial, trivial⟩, rfl⟩, hs⟩
      · obtain ⟨r', s', hs⟩ := blocked_goes_on ht h hblocked
        exact ⟨.receive r', s', ⟨⟨trivial, trivial⟩, rfl⟩, hs⟩
  | idle =>
      by_cases hmore : s.service.ring.fetched.length < s.service.ring.completed.length
      · obtain ⟨k, slot, buf', hfetch, hslot⟩ := ht.works.accounted.can_fetch hmore
        exact ⟨.fetch, _, ⟨⟨trivial, trivial⟩, rfl⟩, .fetch (.fetch hw hfetch hslot)⟩
      · have hall := Nat.le_antisymm ht.ordered.fetched_le (Nat.not_lt.mp hmore)
        by_cases hdone : r ∈ s.service.ring.completed
        · -- the worker has served all that is complete
          have hlog : s.log.map Prod.fst = s.service.ring.completed := by
            rw [h.order, (ht.works.held.owns.idle hw).1, ht.ordered.ready, hall, List.take_length]
          rw [← hlog] at hdone
          obtain ⟨⟨r', e⟩, he, hr'⟩ := List.mem_map.mp hdone
          obtain rfl : r' = r := hr'
          have hunsent := h.unsent_nil fun k hk => by cases hk.symm.trans hw
          obtain ⟨ev, s', rfl | rfl, hs⟩ := answered_goes_on limit ht h hunsent he hopen
          · exact ⟨.receive _, s', ⟨⟨trivial, trivial⟩, rfl⟩, hs⟩
          · exact ⟨.return _, s', ⟨⟨trivial, trivial⟩, rfl⟩, hs⟩
        · exact unreceived_goes_on hshort hb ht hpending hw hall hcalled hdone

/-! ## The steps that are left -/

/-- The most messages an answer can have. -/
def LibCall.messages (c : LibCall) : Nat := numOfParts (roomFor c.request)

/-- The number of parts, rounded up and at least one. -/
theorem numOfParts_eq (a : Nat) : numOfParts a = max 1 ((a + 4063) / 4064) := by
  have hmax : maxMsgDataSize = 4064 := rfl
  rw [numOfParts, hmax]
  by_cases hmod : a % 4064 = 0
  · rw [if_neg (not_not.mpr hmod), Nat.add_zero]
    by_cases hzero : a / 4064 = 0
    · rw [if_pos hzero]
      omega
    · rw [if_neg hzero]
      omega
  · rw [if_pos hmod, if_neg (Nat.succ_ne_zero _)]
    omega

/-- More bytes do not take fewer parts. -/
theorem numOfParts_mono {a b : Nat} (h : a ≤ b) : numOfParts a ≤ numOfParts b := by
  rw [numOfParts_eq, numOfParts_eq]
  omega

/-- There is always a part. -/
theorem numOfParts_pos (a : Nat) : 0 < numOfParts a := by
  rw [numOfParts_eq]
  omega

/-- A round sends one message. -/
theorem responseRounds_length (seq : Int) (status : Status) (d : Bytes) (n : Nat) :
    ∀ i x, (responseRounds seq status d n i x).length = n := by
  induction n with
  | zero =>
      intro i x
      rfl
  | succ n ih =>
      intro i x
      rw [responseRounds, List.length_cons, ih]

/-- An answer takes at most as many messages as were counted for it. -/
theorem LibCall.answer_length {c : LibCall} {e : Event} {t t' : State}
    (hh : handle t e.env c.request = .ok (t', e.response)) :
    (c.answer e).length ≤ c.messages := by
  have hfits := handle_fits hh
  rw [LibCall.answer, LibCall.messages]
  cases hreq : c.request with
  | read args =>
      rw [hreq] at hfits
      show (responseMessages _ _ _).length ≤ _
      rw [responseMessages, List.length_map, responseRounds_length]
      exact numOfParts_mono hfits
  | _ =>
      rw [answerMessages_whole _ _ _ (fun h => RequestType.noConfusion h)]
      exact numOfParts_pos _

section Load

variable (calls : ι → LibCall) (pending : ι → List RequestMsg) (log : List (ι × Event))
  (closed : ι → Option Returned)

/-- The steps a call still takes part in: its parts are received, its answer is
    sent and received, and it returns. -/
def load (r : ι) : Nat :=
  (pending r).length + (if r ∈ log.map Prod.fst then 0 else 2 * (calls r).messages)
    + if closed r = none then 1 else 0

variable {calls pending log closed} {r : ι}

/-- A message that is handled makes one step less. -/
theorem load_received {m : RequestMsg} {rest : List RequestMsg} (hm : pending r = m :: rest) :
    load calls (Function.update pending r rest) log closed r + 1 = load calls pending log closed r ∧
      ∀ x, load calls (Function.update pending r rest) log closed x
        ≤ load calls pending log closed x := by
  have hself : load calls (Function.update pending r rest) log closed r + 1
      = load calls pending log closed r := by
    rw [load, load, Function.update_self, hm, List.length_cons]
    omega
  refine ⟨hself, fun x => ?_⟩
  by_cases hx : x = r
  · rw [hx]
    omega
  · rw [load, load, Function.update_of_ne hx]

/-- A request that is served makes way for its answer. -/
theorem load_logged (hnew : r ∉ log.map Prod.fst) (e : Event) :
    load calls pending (log ++ [(r, e)]) closed r + 2 * (calls r).messages
        = load calls pending log closed r ∧
      ∀ x, load calls pending (log ++ [(r, e)]) closed x ≤ load calls pending log closed x := by
  have hself : load calls pending (log ++ [(r, e)]) closed r + 2 * (calls r).messages
      = load calls pending log closed r := by
    have hin : r ∈ (log ++ [(r, e)]).map Prod.fst := by
      rw [List.map_append]
      exact List.mem_append_right _ (List.mem_singleton_self r)
    rw [load, load, if_pos hin, if_neg hnew]
    omega
  refine ⟨hself, fun x => ?_⟩
  by_cases hx : x = r
  · rw [hx]
    omega
  · have hsame : x ∈ (log ++ [(r, e)]).map Prod.fst ↔ x ∈ log.map Prod.fst := by
      rw [List.map_append, List.mem_append]
      exact or_iff_left fun hmem => hx (List.mem_singleton.mp hmem)
    rw [load, load, if_congr hsame rfl rfl]

/-- A call that returns makes one step less. -/
theorem load_returned (hopen : closed r = none) (ret : Returned) :
    load calls pending log (Function.update closed r (some ret)) r + 1
        = load calls pending log closed r ∧
      ∀ x, load calls pending log (Function.update closed r (some ret)) x
        ≤ load calls pending log closed x := by
  have hself : load calls pending log (Function.update closed r (some ret)) r + 1
      = load calls pending log closed r := by
    rw [load, load, Function.update_self, if_neg (Option.some_ne_none ret), if_pos hopen]
  refine ⟨hself, fun x => ?_⟩
  by_cases hx : x = r
  · rw [hx]
    omega
  · rw [load, load, Function.update_of_ne hx]

end Load

/-- The steps that are left, if no call begins. -/
def System.remaining (calls : ι → LibCall) (s : System ι) : Nat :=
  (s.called.map (load calls s.service.ring.pending s.log s.returned)).sum
    + (s.called.length - s.service.ring.fetched.length)
    + (s.called.length - s.service.executed.length)
    + (s.called.length - s.service.freed.length)
    + 2 * s.unsent.length + s.queue.length

omit [DecidableEq ι] in
/-- One entry of a sum that is lowered, and none that is raised. -/
theorem sum_drop {f g : ι → Nat} {c : Nat} {r : ι} {l : List ι} (hr : r ∈ l)
    (hle : ∀ x, g x ≤ f x) (hc : g r + c ≤ f r) : (l.map g).sum + c ≤ (l.map f).sum := by
  obtain ⟨front, back, rfl⟩ := List.append_of_mem hr
  have hfront : (front.map g).sum ≤ (front.map f).sum := List.sum_le_sum fun x _ => hle x
  have hback : (back.map g).sum ≤ (back.map f).sum := List.sum_le_sum fun x _ => hle x
  simp only [List.map_append, List.map_cons, List.sum_append, List.sum_cons]
  omega

/-- Every request that came in is of a call. -/
theorem Threads.arrived_le (ht : Threads calls n buf s.service) (h : Linear calls s) :
    s.service.ring.arrived.length ≤ s.called.length :=
  (ht.works.accounted.once.subperm fun r hr => h.called r hr).length_le

/-- Every request that was served is of a call. -/
theorem Threads.executed_le_called (ht : Threads calls n buf s.service) (h : Linear calls s) :
    s.service.executed.length ≤ s.called.length := by
  have hfetched := ht.ordered.fetched_le
  have hcompleted := ht.works.accounted.completed_le
  exact ht.executed_le.trans (hfetched.trans (hcompleted.trans (ht.arrived_le h)))

/-- Every step that begins no call leaves fewer steps. -/
theorem step_lowers (hseq : Function.Injective fun r => (calls r).seq)
    (hb : reqBufferCreate n = some buf) {s' : System ι} {e : SystemEvent ι}
    (ht : Threads calls n buf s.service) (h : Linear calls s)
    (hs : guarded (GoesOn calls) (SystemStep limit calls) s e s') :
    s'.remaining calls < s.remaining calls := by
  obtain ⟨⟨⟨hg, -⟩, hnew⟩, hs⟩ := hs
  obtain ⟨ht', h'⟩ := Linear.step hseq hb ht h ⟨hg, hs⟩
  have hfetched' := ht'.ordered.fetched_le.trans
    (ht'.works.accounted.completed_le.trans (ht'.arrived_le h'))
  have hexecuted' := ht'.executed_le.trans hfetched'
  cases hs with
  | call => cases hnew
  | @deliver _ r _ hcalled hs =>
      obtain ⟨m, rest, buf', hm, -, rfl⟩ := hs.delivered
      obtain ⟨hself, hle⟩ := @load_received _ _ calls _ s.log s.returned _ _ _ hm
      have hdrop := sum_drop hcalled hle (Nat.le_of_eq hself)
      simp only [System.remaining, Ring.handled]
      omega
  | fetch hs =>
      cases hs with
      | fetch hw hb' hslot =>
          simp only [List.length_append, List.length_singleton] at hfetched'
          simp only [System.remaining, List.length_append, List.length_singleton]
          omega
  | skip hs =>
      -- the worker is given complete requests only
      cases hs with
      | skip hw hslot hp =>
          obtain ⟨slot', r, hslot', -, hholds⟩ := ht.next hw
          obtain rfl := Except.ok.inj (hslot.symm.trans hslot')
          cases hp.symm.trans hholds.status
  | @execute env r k slot _ files resp hw hslot hr hs hop =>
      obtain ⟨hstep, htype, hfresh, -⟩ := execute_step hseq ht h.order hw hslot hr hop
      have hunsent := h.unsent_nil fun k' hk' => by cases hk'.symm.trans hw
      have hanswer : (answerMessages env slot.seq resp slot.type).length
          ≤ (calls r).messages := by
        rw [← hr, htype]
        exact LibCall.answer_length (e := ⟨env, (calls r).request, resp⟩) hstep
      have hcalled : r ∈ s.called := by
        refine h'.logged_called ht' (e := ⟨env, (calls r).request, resp⟩) ?_
        exact List.mem_append_right _ (List.mem_singleton_self _)
      obtain ⟨hself, hle⟩ := @load_logged _ _ calls s.service.ring.pending _ s.returned _ hfresh
        ⟨env, (calls r).request, resp⟩
      have hdrop := sum_drop hcalled hle (Nat.le_of_eq hself)
      cases hs with
      | execute =>
          simp only [List.length_append, List.length_singleton] at hexecuted'
          simp only [System.remaining, List.length_append, List.length_singleton, List.length_map,
            hunsent, List.length_nil]
          omega
  | send hm =>
      simp only [System.remaining, hm, List.length_append, List.length_cons, List.length_nil]
      omega
  | complete hsent hs =>
      cases hs with
      | complete hw hslot hb' =>
          obtain ⟨slot, -, -, -, -, hfreed⟩ := ht.works.held.owns.served _ hw
          have hlen := congrArg List.length hfreed
          rw [List.length_append, List.length_singleton] at hlen
          have hexecuted := ht.executed_le_called h
          simp only [System.remaining, List.length_append, List.length_singleton]
          omega
  | receive hcalled hwait hm =>
      have hlen := take_length _ hm
      simp only [System.remaining, hlen]
      omega
  | @«return» r ret hopen hret =>
      obtain ⟨e, he, -⟩ := h.got_whole hret
      obtain ⟨hself, hle⟩ := @load_returned _ _ calls s.service.ring.pending s.log _ _ hopen ret
      have hdrop := sum_drop (h.logged_called ht he) hle (Nat.le_of_eq hself)
      simp only [System.remaining]
      omega

/-! ## Every call returns -/

/-- Once no call begins any more, there are only so many steps, whatever the
    order in which they come, and when none is left, all calls have returned. -/
theorem calls_complete (hshort : AllShort calls)
    (hseq : Function.Injective fun r => (calls r).seq) (hb : reqBufferCreate n = some buf)
    (hr : Run (guarded (Regular calls) (SystemStep limit calls)) (System.init calls buf) es s)
    (hserve : ∀ ds t, Run (guarded (GoesOn calls) (SystemStep limit calls)) s ds t →
      Servable calls t)
    {ds : List (SystemEvent ι)} {t : System ι}
    (hrun : Run (guarded (GoesOn calls) (SystemStep limit calls)) s ds t) :
    ds.length ≤ s.remaining calls ∧
      ((∀ r ∈ t.called, t.returned r ≠ none) ∨
        ∃ e t', guarded (GoesOn calls) (SystemStep limit calls) t e t') := by
  have hregular : Run (guarded (Regular calls) (SystemStep limit calls)) (System.init calls buf)
      (es ++ ds) t := hr.trans (hrun.mono fun _ _ _ hs => ⟨hs.1.1, hs.2⟩)
  constructor
  · have hbound := (hrun.bounded (fun s => Threads calls n buf s.service ∧ Linear calls s)
      (System.remaining calls) (fun _ => true) (linear_of_run hseq hb (Regular.keepsOrder hr))
      fun _ _ _ h hs => ⟨Linear.step hseq hb h.1 h.2 ⟨hs.1.1.1, hs.2⟩,
        step_lowers hseq hb h.1 h.2 hs⟩).2
    rw [List.countP_true] at hbound
    omega
  · by_contra hnot
    rw [not_or, not_forall] at hnot
    obtain ⟨⟨r, hr'⟩, hstuck⟩ := hnot
    obtain ⟨hcalled, hopen⟩ := Classical.not_imp.mp hr'
    exact hstuck (call_goes_on hshort hseq hb hregular (hserve ds t hrun) hcalled
      (not_not.mp hopen))

/-- If one call is left, the worker can serve it as long as it could at first. -/
theorem last_servable (hseq : Function.Injective fun r => (calls r).seq)
    (hb : reqBufferCreate n = some buf)
    (hr : Run (guarded (Regular calls) (SystemStep limit calls)) (System.init calls buf) es s)
    {last : ι} (hlast : ∀ r, r ≠ last → r ∈ s.log.map Prod.fst)
    (hadmits : Admissible s.files (calls last).request) {ds : List (SystemEvent ι)} {t : System ι}
    (hrun : Run (guarded (Regular calls) (SystemStep limit calls)) s ds t) : Servable calls t := by
  obtain ⟨-, hs⟩ := linear_of_run hseq hb (Regular.keepsOrder hr)
  obtain ⟨ht, h⟩ := linear_of_run hseq hb (Regular.keepsOrder (hr.trans hrun))
  obtain ⟨more, hmore⟩ := log_of_run (Regular.keepsOrder hrun)
  intro k slot r hw hslot hcall
  -- the request the worker was given was not served yet
  obtain ⟨slot', r', hslot', hnext, hholds⟩ := ht.next hw
  obtain rfl := Except.ok.inj (hslot.symm.trans hslot')
  obtain rfl : r = r' := hseq (hcall.trans hholds.seq)
  have hnew : r ∉ t.log.map Prod.fst := by
    intro hmem
    rw [h.order] at hmem
    obtain ⟨i, hi⟩ := List.mem_iff_getElem?.mp hmem
    obtain ⟨hlt, -⟩ := List.getElem?_eq_some_iff.mp hi
    rw [List.length_take] at hlt
    rw [List.getElem?_take_of_lt (by omega)] at hi
    have hsame := (List.getElem?_inj (by omega) ht.works.accounted.distinct).mp (hi.trans hnext.symm)
    omega
  obtain rfl : r = last := by
    by_contra hne
    obtain ⟨x, hx, hxr⟩ := List.mem_map.mp (hlast r hne)
    exact hnew (List.mem_map.mpr ⟨x, hmore ▸ List.mem_append_left _ hx, hxr⟩)
  -- and nothing was served in between
  have hnone : more = [] := by
    rw [List.eq_nil_iff_forall_not_mem]
    intro x hx
    have honce := h.once ht
    rw [← hmore, List.map_append] at honce
    have hxnew : x.1 ∉ s.log.map Prod.fst := fun hmem =>
      (List.nodup_append.mp honce).2.2 x.1 hmem x.1 (List.mem_map.mpr ⟨x, hx, rfl⟩) rfl
    have hxr : x.1 = r := by
      by_contra hne
      exact hxnew (hlast x.1 hne)
    exact hnew (List.mem_map.mpr ⟨x, hmore ▸ List.mem_append_right _ hx, hxr⟩)
  rw [hnone, List.append_nil] at hmore
  have hfiles : t.files = s.files := by
    have hrun' := h.run
    rw [← hmore] at hrun'
    refine hrun'.deterministic ?_ hs.run
    intro s₀ e s₁ s₂ h₁ h₂
    exact (Prod.mk.inj (Except.ok.inj (Eq.trans (Eq.symm h₁) h₂))).1
  rw [hfiles]
  exact hadmits

/-- The caller that creates the file, and the one that opens it. -/
def twoCallers (r : Fin 2) : LibCall := threeCallers r.castSucc

/-- The two calls have different numbers. -/
theorem twoCallers_seq : Function.Injective fun r => (twoCallers r).seq :=
  fun _ _ h => Fin.castSucc_injective 2 (threeCallers_seq h)

/-- Both requests fit a message. -/
theorem twoCallers_short : AllShort twoCallers := by
  intro r
  have hall : ∀ r, (twoCallers r).payload.length ≤ maxMsgDataSize := by decide +kernel
  exact hall r

/-- Both calls were made, the first was served, and its answer is in the queue
    when the other request is fetched: that one is served next. -/
theorem two_calls_go_on : ∃ (s t : System (Fin 2)) (ds : List (SystemEvent (Fin 2))),
    Run (guarded (GoesOn twoCallers) (SystemStep fourMessages twoCallers)) s ds t ∧
      ds.length = 3 ∧ ds.length ≤ s.remaining twoCallers ∧ t.returned 1 = none ∧
      ∃ e t', guarded (GoesOn twoCallers) (SystemStep fourMessages twoCallers) t e t' := by
  let next := checked (regular twoCallers) (System.step fourMessages twoCallers)
  have hplay : (play next (System.init twoCallers fourSlots) [.call 0, .call 1,
      .deliver stillEnv 0, .deliver stillEnv 1, .fetch, .execute stillEnv 0, .send]).map
        (fun s => ((s.log.map Prod.fst, admits s.files (twoCallers 1).request),
          (play next s [.complete, .receive 0, .fetch]).map
            fun t => (t.called, (t.returned 1).isNone)))
      = some (([0], true), some ([0, 1], true)) := by decide +kernel
  obtain ⟨s, hs, hstate⟩ := Option.map_eq_some_iff.mp hplay
  obtain ⟨hmiddle, hend⟩ := Prod.mk.inj hstate
  obtain ⟨hlog, hadmits⟩ := Prod.mk.inj hmiddle
  obtain ⟨t, ht, hstate⟩ := Option.map_eq_some_iff.mp hend
  obtain ⟨hcalled, hopen⟩ := Prod.mk.inj hstate
  have hopen := Option.isNone_iff_eq_none.mp hopen
  have hbegin := schedule_run twoCallers_seq (n := 4) rfl hs
  have hrest := schedule_goes_on twoCallers_seq (n := 4) rfl hbegin ht
  have hw := wellLinked_of_run (linear_of_run twoCallers_seq (n := 4) rfl
    (Regular.keepsOrder hbegin)).2.run
  have hlast : ∀ r : Fin 2, r ≠ 1 → r ∈ s.log.map Prod.fst := by
    rw [hlog]
    decide
  have hgoes : Run (guarded (GoesOn twoCallers) (SystemStep fourMessages twoCallers)) s
      [.complete, .receive 0, .fetch] t := by
    refine hrest.of_own.mono ?_
    rintro s e s' ⟨he, hg, hs⟩
    have hnone : ∀ e ∈ ([.complete, .receive 0, .fetch] : List (SystemEvent (Fin 2))),
        e.begins = false := by decide
    exact ⟨⟨hg, hnone e he⟩, hs⟩
  obtain ⟨hbound, hdone | hnext⟩ := calls_complete twoCallers_short twoCallers_seq (n := 4) rfl
    hbegin (fun ds t hrun => last_servable twoCallers_seq (n := 4) rfl hbegin hlast
      (admissible_of_admits hw hadmits) (hrun.mono fun _ _ _ hs => ⟨hs.1.1, hs.2⟩)) hgoes
  · exact absurd hopen (hdone 1 (by rw [hcalled]; decide))
  · exact ⟨s, t, _, hgoes, rfl, hbound, hopen, hnext⟩

end LibfsSpecs
