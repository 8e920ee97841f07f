import Libfs.System

/-! # What every step of the system keeps

    As long as the ring buffer is left room and its requests become complete
    in order, the worker serves the requests in the order in which they became
    complete, and each once.  What it has answered is on its way to the call
    that asked, or there. -/

namespace LibfsSpecs

open LibfsHeap LibfsStdio LibfsCommon LibfsInode LibfsOperations LibfsRun LibfsBuffer LibfsQueue
  LibfsRequests

variable {ι : Type} {limit : QueueLimit} {calls : ι → LibCall} {n : Nat} {buf : ReqBuffer}
  {s : System ι}

/-- The requests as the ring buffer gets them. -/
abbrev sentBy (calls : ι → LibCall) (r : ι) : ClientReq := (calls r).clientReq

/-- The receiver goes on in order, and leaves the worker its slot. -/
def KeepsOrder (s : System ι) : SystemEvent ι → Prop
  | .deliver env r =>
      InOrder s.service.ring (.deliver env r) ∧ LeavesRoom s.service (.deliver env r)
  | _ => True

/-! ## Messages of a call -/

/-- Every round sends the number of the call. -/
theorem responseRounds_seq (seq : Int) (status : Status) (d : Bytes) (n : Nat) :
    ∀ i x, ∀ p ∈ responseRounds seq status d n i x, p.2.seq = seq := by
  induction n with
  | zero =>
      intro i x p hp
      cases hp
  | succ n ih =>
      intro i x p hp
      rcases List.mem_cons.mp hp with rfl | hp
      · rfl
      · exact ih _ _ p hp

/-- So all messages of a response carry it. -/
theorem responseMessages_seq {seq : Int} {status : Status} {d : Bytes} {m : ResponseMsg}
    (hm : m ∈ responseMessages seq status d) : m.seq = seq := by
  obtain ⟨p, hp, rfl⟩ := List.mem_map.mp hm
  exact responseRounds_seq seq status d _ _ _ p hp

/-- An answer is addressed to its call. -/
theorem LibCall.answer_seq {c : LibCall} {e : Event} {m : ResponseMsg} (hm : m ∈ c.answer e) :
    m.seq = c.seq := by
  rw [LibCall.answer] at hm
  by_cases hread : requestType c.request = .read
  · rw [hread] at hm
    exact responseMessages_seq hm
  · rw [answerMessages_whole _ _ _ hread] at hm
    obtain rfl := List.mem_singleton.mp hm
    rfl

/-- The messages of a call that are on their way. -/
def System.own [DecidableEq ι] (s : System ι) (r : ι) : List ResponseMsg :=
  ((s.queue ++ s.unsent).filter fun x => x.1 = r).map Prod.snd

/-! ## The invariant -/

/-- The ring buffer and the two threads. -/
structure Threads [DecidableEq ι] (calls : ι → LibCall) (n : Nat) (buf : ReqBuffer)
    (service : Service ι) : Prop where
  reached : ∃ es,
    Run (guarded LeavesRoom ServiceStep) (Service.init (sentBy calls) buf) es service
  works : Works (sentBy calls) n service
  ordered : Ordered (sentBy calls) service.ring

/-- The log is a run of the service, and an answer is on its way to the call it
    was given to. -/
structure Linear [DecidableEq ι] (calls : ι → LibCall) (s : System ι) : Prop where
  order : s.log.map Prod.fst = s.service.ring.completed.take s.service.executed.length
  run : Run Step State.init (s.log.map Prod.snd) s.files
  asked : ∀ x ∈ s.log, x.2.request = (calls x.1).request
  answered : ∀ r e, (r, e) ∈ s.log → s.got r ++ s.own r = (calls r).answer e
  unanswered : ∀ r, r ∉ s.log.map Prod.fst → s.got r = [] ∧ s.own r = []
  settled : ∀ r ret, s.returned r = some ret →
    ∃ e, (r, e) ∈ s.log ∧ s.own r = [] ∧ (calls r).receive (s.got r) = .ok ret
  sending : s.unsent ≠ [] → ∃ k, s.service.worker = .served k
  called : ∀ r ∈ s.service.ring.arrived, r ∈ s.called

section Invariant

variable [DecidableEq ι]

/-- At the beginning nothing was asked or answered. -/
theorem linear_init (buf : ReqBuffer) : Linear calls (System.init calls buf) where
  order := rfl
  run := .start
  asked := by
    intro x hx
    cases hx
  answered := by
    intro r e he
    cases he
  unanswered := fun _ _ => ⟨rfl, rfl⟩
  settled := by
    intro r ret hret
    cases hret
  sending := fun h => absurd rfl h
  called := by
    intro r hr
    cases hr

omit [DecidableEq ι] in
/-- Complete requests that were fetched are ready, so that none is skipped. -/
theorem Ordered.ready {reqs : ι → ClientReq} {ring : Ring ι} (h : Ordered reqs ring) :
    ring.fetched.filter isReady = ring.fetched := by
  refine List.filter_eq_self.mpr fun slot hslot => ?_
  obtain ⟨i, hi, rfl⟩ := List.mem_iff_getElem.mp hslot
  have hwhole := h.handed.get hi (h.handed.length_eq ▸ hi)
  exact decide_eq_true hwhole.status

omit [DecidableEq ι] in
/-- The worker fetches complete requests only. -/
theorem Ordered.fetched_le {reqs : ι → ClientReq} {ring : Ring ι} (h : Ordered reqs ring) :
    ring.fetched.length ≤ ring.completed.length := by
  have hlen := h.handed.length_eq
  rw [List.length_take] at hlen
  omega

section Service

variable {service service' : Service ι}

/-- The ring is empty at the beginning. -/
theorem threads_init (hb : reqBufferCreate n = some buf) :
    Threads calls n buf (Service.init (sentBy calls) buf) where
  reached := ⟨[], .start⟩
  works := ⟨accounted_init hb, keepsHeld_init hb, fun h => absurd rfl h⟩
  ordered := ordered_init buf

/-- A step of one of the threads. -/
theorem Threads.step (hseq : Function.Injective fun r => (calls r).seq)
    (hb : reqBufferCreate n = some buf) (h : Threads calls n buf service) {e : ServiceEvent ι}
    (hg : ∀ env r, e = .deliver env r →
      InOrder service.ring (.deliver env r) ∧ LeavesRoom service e)
    (hs : ServiceStep service e service') : Threads calls n buf service' := by
  have hroom : LeavesRoom service e := by
    cases e with
    | deliver env r => exact (hg env r rfl).2
    | _ => trivial
  obtain ⟨es, hrun⟩ := h.reached
  have hrun' := Run.next hrun ⟨hroom, hs⟩
  refine ⟨⟨_, hrun'⟩, works_of_run hseq hb hrun', ?_⟩
  cases hs with
  | deliver hring =>
      cases hring with
      | deliver hm hb' => exact h.ordered.deliver h.works.accounted hm (hg _ _ rfl).1
  | fetch hw hb' hs => exact h.ordered.fetch h.works.accounted hb' hs
  | skip => exact h.ordered
  | execute => exact h.ordered
  | complete => exact ⟨h.ordered.ahead, h.ordered.handed⟩

/-- The worker serves what it has fetched. -/
theorem Threads.executed_le (h : Threads calls n buf service) :
    service.executed.length ≤ service.ring.fetched.length := by
  have howns := h.works.held.owns
  cases hw : service.worker with
  | idle => rw [(howns.idle hw).1, h.ordered.ready]
  | given k =>
      obtain ⟨before, slot, hfetched, -, hexec, -⟩ := howns.given k hw
      rw [hexec, hfetched, List.length_append]
      exact (List.length_filter_le _ _).trans (Nat.le_add_right _ _)
  | served k =>
      obtain ⟨slot, -, -, -, hexec, -⟩ := howns.served k hw
      rw [hexec, h.ordered.ready]

/-- The slot the worker was given holds the request that became complete next
    after those it has served. -/
theorem Threads.next (h : Threads calls n buf service) {k : Nat} (hw : service.worker = .given k) :
    ∃ slot r, service.ring.buf.slot k = .ok slot ∧
      service.ring.completed[service.executed.length]? = some r ∧
      Holds (sentBy calls r) slot [] := by
  obtain ⟨before, slot, hfetched, hslot, hexec, -⟩ := h.works.held.owns.given k hw
  have hready := h.ordered.ready
  have hhanded := h.ordered.handed
  have hle := h.ordered.fetched_le
  rw [hfetched] at hready hhanded hle
  have hbefore : before.filter isReady = before := by
    refine List.filter_eq_self.mpr fun x hx => ?_
    exact List.filter_eq_self.mp hready x (List.mem_append_left _ hx)
  rw [List.length_append, List.length_singleton] at hle
  rw [hexec, hbefore]
  have hlt : before.length < service.ring.completed.length := hle
  have hi : before.length < (before ++ [slot]).length := by
    rw [List.length_append]
    exact Nat.lt_succ_self _
  have hwhole := hhanded.get hi (hhanded.length_eq ▸ hi)
  rw [List.get_eq_getElem, List.get_eq_getElem, List.getElem_concat_length rfl,
    List.getElem_take] at hwhole
  exact ⟨slot, _, slot_ok.mpr hslot, List.getElem?_eq_getElem hlt, hwhole⟩

end Service

/-! ## Messages on their way -/

/-- A message on its way is among those of its call. -/
theorem mem_own {x : ι × ResponseMsg} (hx : x ∈ s.queue ++ s.unsent) : x.2 ∈ s.own x.1 := by
  refine List.mem_map.mpr ⟨x, List.mem_filter.mpr ⟨hx, decide_eq_true rfl⟩, rfl⟩

/-- A message on its way answers a call that was served. -/
theorem Linear.logged (h : Linear calls s) {x : ι × ResponseMsg} (hx : x ∈ s.queue ++ s.unsent) :
    ∃ e, (x.1, e) ∈ s.log := by
  have hown := mem_own hx
  by_contra hnot
  have hnew : x.1 ∉ s.log.map Prod.fst := by
    intro hmem
    obtain ⟨⟨r, e⟩, he, hr⟩ := List.mem_map.mp hmem
    obtain rfl : r = x.1 := hr
    exact hnot ⟨e, he⟩
  rw [(h.unanswered x.1 hnew).2] at hown
  cases hown

/-- A message on its way is of the type of the call it answers. -/
theorem Linear.typed (h : Linear calls s) {x : ι × ResponseMsg} (hx : x ∈ s.queue ++ s.unsent) :
    x.2.seq = (calls x.1).seq := by
  obtain ⟨e, he⟩ := h.logged hx
  have hans := h.answered x.1 e he
  exact LibCall.answer_seq (hans ▸ List.mem_append_right _ (mem_own hx))

/-- A call that waits takes the next message of its own. -/
theorem Linear.takes (hseq : Function.Injective fun r => (calls r).seq) (h : Linear calls s)
    {r c : ι} {m : ResponseMsg} {queue : List (ι × ResponseMsg)}
    (ht : take (fun x => ofType (calls r).seq x.2) s.queue = some ((c, m), queue)) :
    s.own r = m :: System.own { s with queue := queue } r ∧
      ∀ r', r' ≠ r → System.own { s with queue := queue } r' = s.own r' := by
  have hsame : take (fun x => ofType (calls r).seq x.2) s.queue
      = take (fun x => decide (x.1 = r)) s.queue := by
    refine take_congr fun x hx => ?_
    have hpos := (calls r).positive
    rw [ofType, h.typed (List.mem_append_left _ hx), decide_eq_false (Int.ne_of_gt hpos),
      Bool.false_or]
    exact decide_eq_decide.mpr ⟨fun he => hseq he, fun he => by rw [he]⟩
  rw [hsame] at ht
  obtain ⟨-, hfilter, hothers⟩ := take_some ht
  constructor
  · rw [System.own, System.own, List.filter_append, hfilter, List.filter_append]
    rfl
  · intro r' hr'
    rw [System.own, System.own, List.filter_append, List.filter_append,
      hothers fun x => decide (x.1 = r')]
    intro x hx
    have hx' : x.1 = r := of_decide_eq_true hx
    exact decide_eq_false fun he => hr' (he.symm.trans hx')

/-- The messages of an answer, and of no other call, are on their way. -/
theorem own_answered (hnone : s.unsent = []) (r : ι) (msgs : List ResponseMsg)
    (service : Service ι) (files : State) (log : List (ι × Event)) (r' : ι) :
    System.own { s with
      service := service
      files := files
      log := log
      unsent := msgs.map (Prod.mk r) } r' = s.own r' ++ if r' = r then msgs else [] := by
  rw [System.own, System.own, hnone, List.append_nil, List.filter_append, List.map_append]
  congr 1
  by_cases hr : r' = r
  · obtain rfl := hr
    rw [if_pos rfl, List.filter_eq_self.mpr, List.map_map]
    · exact List.map_id' msgs
    · intro x hx
      obtain ⟨m, -, rfl⟩ := List.mem_map.mp hx
      exact decide_eq_true rfl
  · rw [if_neg hr, List.filter_eq_nil_iff.mpr, List.map_nil]
    intro x hx
    obtain ⟨m, -, rfl⟩ := List.mem_map.mp hx
    exact fun he => hr (of_decide_eq_true he).symm

/-- A call is served once. -/
theorem Linear.once (h : Linear calls s) (ht : Threads calls n buf s.service) :
    (s.log.map Prod.fst).Nodup := by
  rw [h.order]
  exact ht.works.accounted.distinct.sublist (List.take_sublist _ _)

/-- Only a worker that has served a request has something to send. -/
theorem Linear.unsent_nil (h : Linear calls s) (hw : ∀ k, s.service.worker ≠ .served k) :
    s.unsent = [] := by
  by_contra hsome
  obtain ⟨k, hk⟩ := h.sending hsome
  exact hw k hk

/-! ## The worker -/

omit [DecidableEq ι] in
/-- The worker serves the request the call has sent. -/
theorem operate_holds {r : ι} {slot : ServiceReq} (h : Holds (sentBy calls r) slot [])
    (files : State) (env : Env) :
    operate files env slot = handle files env (calls r).request := by
  obtain ⟨data, hdata, -, hpayload⟩ := h.data
  have hbytes : data = (calls r).payload := by
    rw [if_pos rfl] at hpayload
    exact hpayload
  have htype : slot.type = requestType (calls r).request := h.type
  rw [operate, hdata, htype, hbytes]
  show (decode (requestType (calls r).request) (calls r).payload >>= _) = _
  rw [(calls r).payload_survives.2.2, ok_bind]

/-- The step of the service the worker takes with the slot it was given, and the
    call it takes it for, which was not served before. -/
theorem execute_step (hseq : Function.Injective fun r => (calls r).seq)
    (ht : Threads calls n buf s.service)
    (horder : s.log.map Prod.fst
      = s.service.ring.completed.take s.service.executed.length) {env : Env} {r : ι} {k : Nat}
    {slot : ServiceReq} {files : State} {resp : Response} (hw : s.service.worker = .given k)
    (hs : s.service.ring.buf.slot k = .ok slot) (hr : (calls r).seq = slot.seq)
    (hop : operate s.files env slot = .ok (files, resp)) :
    Step s.files ⟨env, (calls r).request, resp⟩ files ∧
      slot.type = requestType (calls r).request ∧ r ∉ s.log.map Prod.fst ∧
      s.service.ring.completed.take (s.service.executed.length + 1)
        = s.log.map Prod.fst ++ [r] := by
  obtain ⟨slot', r', hslot', hnext, hholds⟩ := ht.next hw
  obtain rfl : slot = slot' := Except.ok.inj (hs.symm.trans hslot')
  obtain rfl : r = r' := hseq (hr.trans hholds.seq)
  rw [operate_holds hholds] at hop
  obtain ⟨hlt, hget⟩ := List.getElem?_eq_some_iff.mp hnext
  have htake : s.service.ring.completed.take (s.service.executed.length + 1)
      = s.log.map Prod.fst ++ [r] := by
    rw [List.take_succ_eq_append_getElem hlt, hget, horder]
  refine ⟨hop, hholds.type, ?_, htake⟩
  -- it became complete only once
  have hnodup := ht.works.accounted.distinct.sublist
    (List.take_sublist (s.service.executed.length + 1) s.service.ring.completed)
  rw [htake] at hnodup
  exact fun hmem => (List.nodup_append.mp hnodup).2.2 r hmem r (List.mem_singleton_self r) rfl

omit [DecidableEq ι] in
/-- A logged call was handled in some state. -/
theorem handled_of_log (hrun : Run Step State.init (s.log.map Prod.snd) s.files)
    (hasked : ∀ x ∈ s.log, x.2.request = (calls x.1).request) {r : ι} {e : Event}
    (he : (r, e) ∈ s.log) :
    ∃ t t', handle t e.env (calls r).request = .ok (t', e.response) := by
  obtain ⟨t, t', hstep⟩ := hrun.step_of_mem (List.mem_map.mpr ⟨_, he, rfl⟩)
  have hreq : e.request = (calls r).request := hasked _ he
  refine ⟨t, t', ?_⟩
  rw [← hreq]
  exact hstep

/-! ## One step -/

/-- What the log says does not change when the ring buffer goes on. -/
theorem Linear.buffered (h : Linear calls s) {service : Service ι}
    (hcompleted : s.service.ring.completed <+: service.ring.completed)
    (hle : s.service.executed.length ≤ s.service.ring.completed.length)
    (hexec : service.executed = s.service.executed)
    (hsending : s.unsent ≠ [] → ∃ k, service.worker = .served k)
    (hcalled : ∀ r ∈ service.ring.arrived, r ∈ s.called) :
    Linear calls { s with service := service } := by
  refine { h with order := ?_, sending := hsending, called := hcalled }
  obtain ⟨more, hmore⟩ := hcompleted
  show s.log.map Prod.fst = service.ring.completed.take service.executed.length
  rw [h.order, hexec, ← hmore, List.take_append_of_le_length hle]

/-- The worker serves the next request: the log grows by it, and its answer is
    on its way. -/
theorem Linear.execute (hseq : Function.Injective fun r => (calls r).seq) (h : Linear calls s)
    (ht : Threads calls n buf s.service) {env : Env} {r : ι} {k : Nat} {slot : ServiceReq}
    {files : State} {resp : Response} (hw : s.service.worker = .given k)
    (hs : s.service.ring.buf.slot k = .ok slot) (hr : (calls r).seq = slot.seq)
    (hop : operate s.files env slot = .ok (files, resp)) :
    Linear calls { s with
      service := { s.service with
        worker := .served k
        executed := s.service.executed ++ [slot] }
      files := files
      log := s.log ++ [(r, ⟨env, (calls r).request, resp⟩)]
      unsent := (answerMessages env slot.seq resp slot.type).map (Prod.mk r) } := by
  obtain ⟨hstep, htype, hfresh, htake⟩ := execute_step hseq ht h.order hw hs hr hop
  have hanswer : answerMessages env slot.seq resp slot.type
      = (calls r).answer ⟨env, (calls r).request, resp⟩ := by
    rw [LibCall.answer, ← hr, htype]
  rw [hanswer]
  have hnone := h.unsent_nil fun k' hk' => by cases hk'.symm.trans hw
  obtain ⟨hgot, hown⟩ := h.unanswered r hfresh
  have hmine := own_answered hnone r ((calls r).answer ⟨env, (calls r).request, resp⟩)
    { s.service with worker := .served k, executed := s.service.executed ++ [slot] } files
    (s.log ++ [(r, ⟨env, (calls r).request, resp⟩)])
  constructor
  case order =>
    show (s.log ++ [_]).map Prod.fst
      = s.service.ring.completed.take (s.service.executed ++ [slot]).length
    rw [List.length_append, List.length_singleton, htake, List.map_append]
    rfl
  case run =>
    show Run Step State.init ((s.log ++ [_]).map Prod.snd) files
    rw [List.map_append]
    exact .next h.run hstep
  case asked =>
    intro x hx
    rcases List.mem_append.mp hx with hx | hx
    · exact h.asked x hx
    · obtain rfl := List.mem_singleton.mp hx
      rfl
  case answered =>
    intro r' e he
    rw [hmine r']
    rcases List.mem_append.mp he with he | he
    · have hne : r' ≠ r := fun heq => hfresh (heq ▸ List.mem_map.mpr ⟨_, he, rfl⟩)
      rw [if_neg hne, List.append_nil]
      exact h.answered r' e he
    · obtain ⟨rfl, rfl⟩ := Prod.mk.inj (List.mem_singleton.mp he)
      rw [if_pos rfl, hown, List.nil_append]
      show s.got r' ++ _ = _
      rw [hgot, List.nil_append]
  case unanswered =>
    intro r' hr'
    rw [List.map_append, List.mem_append] at hr'
    have hne : r' ≠ r := fun heq => hr' (Or.inr (heq ▸ List.mem_singleton_self _))
    rw [hmine r', if_neg hne, List.append_nil]
    exact h.unanswered r' fun hmem => hr' (Or.inl hmem)
  case settled =>
    intro r' ret hret
    obtain ⟨e, he, hdone, hcall⟩ := h.settled r' ret hret
    have hne : r' ≠ r := fun heq => hfresh (heq ▸ List.mem_map.mpr ⟨_, he, rfl⟩)
    refine ⟨e, List.mem_append_left _ he, ?_, hcall⟩
    rw [hmine r', if_neg hne, List.append_nil]
    exact hdone
  case sending => exact fun _ => ⟨k, rfl⟩
  case called => exact h.called

/-- A call takes its next message. -/
theorem Linear.receive (hseq : Function.Injective fun r => (calls r).seq) (h : Linear calls s)
    {r c : ι} {m : ResponseMsg} {queue : List (ι × ResponseMsg)}
    (hwait : (calls r).receive (s.got r) = .error .blocked)
    (ht : take (fun x => ofType (calls r).seq x.2) s.queue = some ((c, m), queue)) :
    Linear calls { s with
      queue := queue
      got := Function.update s.got r (s.got r ++ [m]) } := by
  obtain ⟨hown, hothers⟩ := h.takes hseq ht
  -- the call moves a message, and the others keep theirs
  have hgot : ∀ r', Function.update s.got r (s.got r ++ [m]) r'
      ++ System.own { s with queue := queue } r' = s.got r' ++ s.own r' := by
    intro r'
    by_cases hr : r' = r
    · obtain rfl := hr
      rw [Function.update_self, hown, List.append_assoc]
      rfl
    · rw [Function.update_of_ne hr, hothers r' hr]
  refine { h with answered := ?_, unanswered := ?_, settled := ?_ }
  · intro r' e he
    rw [← h.answered r' e he]
    exact hgot r'
  · intro r' hr'
    obtain ⟨hnone, hnone'⟩ := h.unanswered r' hr'
    have hboth := hgot r'
    rw [hnone, hnone'] at hboth
    exact List.append_eq_nil_iff.mp hboth
  · intro r' ret hret
    obtain ⟨e, he, hdone, hcall⟩ := h.settled r' ret hret
    have hne : r' ≠ r := by
      rintro rfl
      cases hcall.symm.trans hwait
    refine ⟨e, he, (hothers r' hne).trans hdone, ?_⟩
    show (calls r').receive (Function.update s.got r (s.got r ++ [m]) r') = _
    rw [Function.update_of_ne hne]
    exact hcall

/-- A message goes from the worker into the queue. -/
theorem Linear.send (h : Linear calls s) {m : ι × ResponseMsg} {ms : List (ι × ResponseMsg)}
    (hm : s.unsent = m :: ms) :
    Linear calls { s with unsent := ms, queue := s.queue ++ [m] } := by
  have hown : ∀ r, System.own { s with unsent := ms, queue := s.queue ++ [m] } r = s.own r := by
    intro r
    rw [System.own, System.own, hm, List.append_assoc]
    rfl
  refine { h with answered := ?_, unanswered := ?_, settled := ?_, sending := ?_ }
  · intro r e he
    rw [hown r]
    exact h.answered r e he
  · intro r hr
    rw [hown r]
    exact h.unanswered r hr
  · intro r ret hret
    obtain ⟨e, he, hdone, hcall⟩ := h.settled r ret hret
    exact ⟨e, he, (hown r).trans hdone, hcall⟩
  · intro _
    refine h.sending ?_
    rw [hm]
    exact List.cons_ne_nil _ _

/-- A call whose code returns has got all of its answer. -/
theorem Linear.got_whole (h : Linear calls s) {r : ι} {ret : Returned}
    (hret : (calls r).receive (s.got r) = .ok ret) :
    ∃ e, (r, e) ∈ s.log ∧ s.own r = [] := by
  by_cases hlogged : r ∈ s.log.map Prod.fst
  · obtain ⟨⟨r', e⟩, he, hr⟩ := List.mem_map.mp hlogged
    obtain rfl : r' = r := hr
    refine ⟨e, he, ?_⟩
    by_contra hmore
    obtain ⟨t, t', hh⟩ := handled_of_log h.run h.asked he
    have hans := h.answered r' e he
    have hblocked := receiveCall_blocked (calls r').inRange hh ⟨s.own r', hans⟩
      (fun heq => hmore (List.append_cancel_left (hans.trans (heq.symm.trans
        (List.append_nil _).symm)))) (calls r').env (calls r').errno (calls r').buf
    cases hblocked.symm.trans hret
  · rw [(h.unanswered r hlogged).1] at hret
    cases (receiveCall_nil _ _ _ _ _).symm.trans hret

/-- A call returns what it has got. -/
theorem Linear.return (h : Linear calls s) {r : ι} {ret : Returned}
    (hret : (calls r).receive (s.got r) = .ok ret) :
    Linear calls { s with returned := Function.update s.returned r (some ret) } := by
  refine { h with settled := ?_ }
  intro r' ret' hret'
  change Function.update s.returned r (some ret) r' = some ret' at hret'
  by_cases hr : r' = r
  · obtain rfl := hr
    rw [Function.update_self] at hret'
    obtain rfl := Option.some.inj hret'
    obtain ⟨e, he, hdone⟩ := h.got_whole hret
    exact ⟨e, he, hdone, hret⟩
  · rw [Function.update_of_ne hr] at hret'
    exact h.settled r' ret' hret'

/-- What a step of the system keeps. -/
theorem Linear.step (hseq : Function.Injective fun r => (calls r).seq)
    (hb : reqBufferCreate n = some buf) {s' : System ι} {e : SystemEvent ι}
    (ht : Threads calls n buf s.service) (h : Linear calls s)
    (hs : guarded KeepsOrder (SystemStep limit calls) s e s') :
    Threads calls n buf s'.service ∧ Linear calls s' := by
  obtain ⟨hg, hs⟩ := hs
  have hle := ht.executed_le.trans ht.ordered.fetched_le
  cases hs with
  | call hnew =>
      refine ⟨ht, { h with called := ?_ }⟩
      exact fun r hr => List.mem_append_left _ (h.called r hr)
  | deliver hcalled hs =>
      refine ⟨ht.step hseq hb ?_ hs, ?_⟩
      · rintro env r ⟨⟩
        exact hg
      · obtain ⟨m, rest, buf', hm, -, rfl⟩ := hs.delivered
        refine h.buffered ?_ hle rfl h.sending ?_
        · show _ <+: ite _ _ _
          split
          · exact List.prefix_append _ _
          · exact List.prefix_rfl
        · intro r hr
          change r ∈ ite _ _ _ at hr
          split at hr
          · rcases List.mem_append.mp hr with hr | hr
            · exact h.called r hr
            · rw [List.mem_singleton.mp hr]
              exact hcalled
          · exact h.called r hr
  | fetch hs =>
      refine ⟨ht.step hseq hb (by rintro env r ⟨⟩) hs, ?_⟩
      cases hs with
      | fetch hw hb' hslot =>
          refine h.buffered List.prefix_rfl hle rfl ?_ h.called
          intro hsome
          obtain ⟨k, hk⟩ := h.sending hsome
          cases hk.symm.trans hw
  | skip hs =>
      refine ⟨ht.step hseq hb (by rintro env r ⟨⟩) hs, ?_⟩
      cases hs with
      | skip hw hslot hp =>
          refine h.buffered List.prefix_rfl hle rfl ?_ h.called
          intro hsome
          obtain ⟨k, hk⟩ := h.sending hsome
          cases hk.symm.trans hw
  | execute hw hslot hr hs hop =>
      refine ⟨ht.step hseq hb (by rintro env r ⟨⟩) hs, ?_⟩
      cases hs with
      | execute hw' hslot' hp =>
          cases hw.symm.trans hw'
          obtain rfl := Except.ok.inj (hslot.symm.trans hslot')
          exact h.execute hseq ht hw hslot hr hop
  | send hm => exact ⟨ht, h.send hm⟩
  | complete hsent hs =>
      refine ⟨ht.step hseq hb (by rintro env r ⟨⟩) hs, ?_⟩
      cases hs with
      | complete hw hslot hb' =>
          exact h.buffered List.prefix_rfl hle rfl (fun hsome => absurd hsent hsome) h.called
  | receive hcalled hwait hm => exact ⟨ht, h.receive hseq hwait hm⟩
  | «return» _ hret => exact ⟨ht, h.return hret⟩

/-! ## Every run -/

section Runs

variable {es : List (SystemEvent ι)}

/-- In every state of a run that keeps to the order. -/
theorem linear_of_run (hseq : Function.Injective fun r => (calls r).seq)
    (hb : reqBufferCreate n = some buf)
    (hr : Run (guarded KeepsOrder (SystemStep limit calls)) (System.init calls buf) es s) :
    Threads calls n buf s.service ∧ Linear calls s :=
  hr.invariant (fun s => Threads calls n buf s.service ∧ Linear calls s)
    ⟨threads_init hb, linear_init buf⟩ fun _ _ _ h hs => Linear.step hseq hb h.1 h.2 hs

end Runs

end Invariant

end LibfsSpecs
