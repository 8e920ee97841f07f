import Libfs.Process

/-! # The end of the service

    After a signal the two threads take only so many steps, and at most one
    more call is served.  They stop short of their end if the process exits, if
    the worker's signal came between the receiver's check and its `msgrcv`, or
    while the response queue is full and no caller takes its messages.  When
    they have ended, `main` saves the tables: they hold what was served, and
    the calls that were served are those that return. -/

namespace LibfsSpecs

open LibfsHeap LibfsStdio LibfsCommon LibfsInode LibfsOperations LibfsRun LibfsBuffer LibfsQueue
  LibfsRequests LibfsFileSystem LibfsText

variable {ι : Type} [DecidableEq ι] {limit : QueueLimit} {calls : ι → LibCall} {n : Nat}
  {buf : ReqBuffer}
  {s s' t : Process ι} {e : ProcessEvent ι} {es ds : List (ProcessEvent ι)}

/-- What holds in every state of the process. -/
structure Sane (calls : ι → LibCall) (n : Nat) (buf : ReqBuffer) (s : Process ι) : Prop where
  threads : Threads calls n buf s.system.service
  linear : Linear calls s.system
  watched : Watched s

/-- A step of the process keeps what is known of it. -/
theorem Sane.step {G : System ι → SystemEvent ι → Prop} (hkeeps : ∀ s e, G s e → KeepsOrder s e)
    (hseq : Function.Injective fun r => (calls r).seq) (hb : reqBufferCreate n = some buf)
    (h : Sane calls n buf s) (hs : guarded (OfSystem G) (ProcessStep limit calls) s e s') :
    Sane calls n buf s' := by
  obtain ⟨hg, hs⟩ := hs
  have hwatched := h.watched.step hs
  rcases hs.system with hsame | ⟨e', rfl, hstep⟩
  · exact ⟨hsame ▸ h.threads, hsame ▸ h.linear, hwatched⟩
  · obtain ⟨ht, hl⟩ := Linear.step hseq hb h.threads h.linear ⟨hkeeps _ _ hg, hstep⟩
    exact ⟨ht, hl, hwatched⟩

/-- It holds in every run under a guard that keeps the order. -/
theorem sane_of_run {G : System ι → SystemEvent ι → Prop} (hkeeps : ∀ s e, G s e → KeepsOrder s e)
    (hseq : Function.Injective fun r => (calls r).seq) (hb : reqBufferCreate n = some buf)
    (hr : Run (guarded (OfSystem G) (ProcessStep limit calls)) (Process.init calls buf) es s) :
    Sane calls n buf s :=
  hr.invariant (Sane calls n buf) ⟨threads_init hb, linear_init buf, watched_init buf⟩
    fun _ _ _ h hs => h.step hkeeps hseq hb hs

/-! ## The steps that are left -/

/-- The steps the receiver has left: one message at most, and the check. -/
def Receiver.rank : Receiver → Nat
  | .checking => 1
  | .entering => 3
  | .waiting => 2
  | .ended => 0

/-- The most messages the answer the worker gives next can have. -/
def System.nextMessages (calls : ι → LibCall) (s : System ι) : Nat :=
  match s.service.ring.completed[s.service.executed.length]? with
  | some r => (calls r).messages
  | none => 0

/-- The steps the worker has left: the rest of its round, and the end. -/
def Process.workerRank (calls : ι → LibCall) (s : Process ι) : Nat :=
  match s.loop, s.system.service.worker with
  | .round, .served _ => 3 + s.system.unsent.length
  | .round, _ => 2
  | .checked, _ => 4 + s.system.nextMessages calls
  | .left, _ => 1
  | .ended, _ => 0

/-- The steps the threads have left once `working` is false. -/
def Process.rank (calls : ι → LibCall) (s : Process ι) : Nat :=
  if s.exited = true then 0 else s.receiver.rank + s.workerRank calls

omit [DecidableEq ι] in
/-- The rank of a process that has not exited. -/
theorem Process.rank_up (h : s.exited = false) :
    s.rank calls = s.receiver.rank + s.workerRank calls := by
  rw [Process.rank, h]
  rfl

omit [DecidableEq ι] in
/-- An exit only lowers the rank. -/
theorem Process.rank_le : s.rank calls ≤ s.receiver.rank + s.workerRank calls := by
  rw [Process.rank]
  split
  · exact Nat.zero_le _
  · exact le_rfl

/-- The calls that were served, or will be in this round. -/
def Process.served (s : Process ι) : Nat :=
  s.system.log.length + if s.loop = .checked then 1 else 0

/-- A signal does not send the receiver back. -/
theorem Receiver.interrupted_rank (receiver : Receiver) :
    receiver.interrupted.rank ≤ receiver.rank := by
  cases receiver with
  | waiting => exact Nat.zero_le _
  | _ => exact le_rfl

/-- The answer that is given is one of the request that came next. -/
theorem execute_messages (hseq : Function.Injective fun r => (calls r).seq) {s s' : System ι}
    (ht : Threads calls n buf s.service) (h : Linear calls s) {env : Env} {r : ι}
    (hs : SystemStep limit calls s (.execute env r) s') :
    s'.unsent.length ≤ s.nextMessages calls ∧ s'.log.length = s.log.length + 1 ∧
      ∃ k, s'.service.worker = .served k := by
  cases hs with
  | @execute _ _ k slot _ files resp hw hslot hr hs hop =>
      obtain ⟨hstep, htype, -⟩ := execute_step hseq ht h.order hw hslot hr hop
      obtain ⟨slot', r', hslot', hnext, hholds⟩ := ht.next hw
      obtain rfl : slot = slot' := Except.ok.inj (hslot.symm.trans hslot')
      obtain rfl : r = r' := hseq (hr.trans hholds.seq)
      refine ⟨?_, List.length_append, ?_⟩
      · rw [System.nextMessages, hnext]
        simp only [List.length_map]
        rw [← hr, htype]
        exact LibCall.answer_length (e := ⟨env, (calls r).request, resp⟩) hstep
      · cases hs with
        | execute => exact ⟨_, rfl⟩

/-- A message that comes in does not change what the worker has to do. -/
theorem workerRank_delivered (h : Sane calls n buf s) (hloop : s.loop.inside = true)
    {ring : Ring ι} (hring : s.system.service.ring.completed <+: ring.completed) :
    Process.workerRank calls { s with
      system := { s.system with service := { s.system.service with ring := ring } }
      receiver := .checking } = s.workerRank calls := by
  cases hl : s.loop with
  | round =>
      cases hw : s.system.service.worker with
      | _ => simp only [Process.workerRank, hl, hw]
  | checked =>
      obtain ⟨k, hw⟩ := h.watched.checked hl
      obtain ⟨slot, r, -, hnext, -⟩ := h.threads.next hw
      obtain ⟨more, hmore⟩ := hring
      have hnext' : ring.completed[s.system.service.executed.length]? = some r := by
        rw [← hmore, List.getElem?_append_left (List.getElem?_eq_some_iff.mp hnext).1]
        exact hnext
      simp only [Process.workerRank, hl, System.nextMessages, hnext, hnext']
  | _ =>
      rw [hl] at hloop
      cases hloop

omit [DecidableEq ι] in
/-- A signal gives the threads nothing to do. -/
theorem rank_signalled (thread : Thread) : (s.signalled limit thread).working = false ∧
    (s.signalled limit thread).served = s.served ∧ (s.exited = false →
      (s.signalled limit thread).rank calls ≤ s.rank calls) := by
  cases thread with
  | main => exact ⟨rfl, rfl, fun _ => le_rfl⟩
  | receiver =>
      refine ⟨rfl, rfl, fun hup => ?_⟩
      rw [Process.rank_up hup]
      exact Process.rank_le.trans (Nat.add_le_add_right s.receiver.interrupted_rank _)
  | worker =>
      refine ⟨rfl, rfl, fun hup => ?_⟩
      rw [Process.rank_up hup]
      exact Process.rank_le

/-- Once `working` is false, every step of a thread leaves fewer of them. -/
theorem AliveStep.lowers (hseq : Function.Injective fun r => (calls r).seq)
    (h : Sane calls n buf s) (hstop : s.working = false) (hup : s.exited = false)
    (hs : AliveStep limit calls s e s') :
    s'.working = false ∧ s'.rank calls + (if e.byThread = true then 1 else 0) ≤ s.rank calls ∧
      s'.served ≤ s.served := by
  rw [Process.rank_up hup]
  have hle := @Process.rank_le _ calls s'
  cases hs with
  | signal thread =>
      obtain ⟨hworking, hserved, hrank⟩ := @rank_signalled _ limit calls s thread
      refine ⟨hworking, ?_, hserved.le⟩
      rw [← Process.rank_up hup]
      exact hrank hup
  | check hr =>
      refine ⟨hstop, ?_, le_rfl⟩
      simp only [Process.workerRank, hr, hstop, Receiver.rank, ProcessEvent.byThread, ↓reduceIte,
        Bool.false_eq_true] at hle ⊢
      omega
  | enter hr =>
      refine ⟨hstop, ?_, le_rfl⟩
      simp only [Process.workerRank, Receiver.rank] at hle
      simp only [Process.workerRank, hr, Receiver.rank, ProcessEvent.byThread, ↓reduceIte]
      omega
  | deliver hr hloop hs =>
      cases hs with
      | deliver _ hs =>
          obtain ⟨m, rest, buf', -, -, rfl⟩ := hs.delivered
          refine ⟨hstop, ?_, le_rfl⟩
          rw [workerRank_delivered h hloop] at hle
          · simp only [Receiver.rank] at hle
            simp only [hr, Receiver.rank, ProcessEvent.byThread, SystemEvent.byCaller,
              Bool.not_false, ↓reduceIte]
            omega
          · show _ <+: ite _ _ _
            split
            · exact List.prefix_append _ _
            · exact List.prefix_rfl
  | lose hr hloop =>
      refine ⟨hstop, ?_, le_rfl⟩
      simp only [Process.workerRank, Receiver.rank] at hle
      simp only [Process.workerRank, hr, Receiver.rank, ProcessEvent.byThread, ↓reduceIte]
      omega
  | refuse hr =>
      refine ⟨hstop, ?_, le_rfl⟩
      show 0 + 1 ≤ _
      rw [hr, Receiver.rank]
      omega
  | fetch _ hworking => cases hworking.symm.trans hstop
  | pass _ hworking => cases hworking.symm.trans hstop
  | skip hloop hs =>
      cases hs with
      | skip hs =>
          refine ⟨hstop, ?_, Nat.add_le_add_left (Nat.zero_le _) _⟩
          cases hs with
          | skip =>
              simp only [Process.workerRank] at hle
              simp only [Process.workerRank, hloop, ProcessEvent.byThread, SystemEvent.byCaller,
                Bool.not_false, ↓reduceIte]
              omega
  | execute hloop hs =>
      obtain ⟨hunsent, hlog, k, hw⟩ := execute_messages hseq h.threads h.linear hs
      refine ⟨hstop, ?_, ?_⟩
      · simp only [Process.workerRank, hw] at hle
        simp only [Process.workerRank, hloop, ProcessEvent.byThread, SystemEvent.byCaller,
          Bool.not_false, ↓reduceIte]
        omega
      · simp only [Process.served, hloop, hlog, reduceCtorEq, ↓reduceIte]
        omega
  | fail hloop =>
      refine ⟨hstop, ?_, le_rfl⟩
      show 0 + 1 ≤ _
      simp only [Process.workerRank, hloop]
      omega
  | send hloop hs =>
      cases hs with
      | send hm =>
          obtain ⟨k, hw⟩ := h.linear.sending (by rw [hm]; exact List.cons_ne_nil _ _)
          refine ⟨hstop, ?_, le_rfl⟩
          simp only [Process.workerRank, hloop, hw] at hle
          simp only [Process.workerRank, hloop, hw, hm, List.length_cons, ProcessEvent.byThread,
            SystemEvent.byCaller, Bool.not_false, ↓reduceIte]
          omega
  | complete hloop hs =>
      cases hs with
      | complete _ hs =>
          cases hs with
          | complete hw =>
              refine ⟨hstop, ?_, le_rfl⟩
              simp only [Process.workerRank, hloop] at hle
              simp only [Process.workerRank, hloop, hw, ProcessEvent.byThread,
                SystemEvent.byCaller, Bool.not_false, ↓reduceIte]
              omega
  | leaveIdle hloop hw =>
      refine ⟨hstop, ?_, Nat.add_le_add_left (Nat.zero_le _) _⟩
      simp only [Process.workerRank] at hle
      simp only [Process.workerRank, hloop, hw, ProcessEvent.byThread, ↓reduceIte]
      omega
  | leaveGiven hloop hw =>
      refine ⟨hstop, ?_, Nat.add_le_add_left (Nat.zero_le _) _⟩
      simp only [Process.workerRank] at hle
      simp only [Process.workerRank, hloop, hw, ProcessEvent.byThread, ↓reduceIte]
      omega
  | interrupt hloop =>
      have hrank := s.receiver.interrupted_rank
      refine ⟨rfl, ?_, Nat.add_le_add_left (Nat.zero_le _) _⟩
      simp only [Process.workerRank] at hle
      simp only [Process.workerRank, hloop, ProcessEvent.byThread, ↓reduceIte]
      omega

/-- Every step of a thread lowers the rank, and no other step raises it. -/
theorem rank_lowers (hseq : Function.Injective fun r => (calls r).seq) (h : Sane calls n buf s)
    (hstop : s.working = false) (hs : ProcessStep limit calls s e s') :
    s'.working = false ∧ s'.rank calls + (if e.byThread = true then 1 else 0) ≤ s.rank calls ∧
      s'.served ≤ s.served := by
  cases hs with
  | caller he hs =>
      obtain ⟨hservice, -, hlog, hunsent⟩ := hs.caller_keeps he
      refine ⟨hstop, ?_, ?_⟩
      · simp only [Process.rank, Process.workerRank, System.nextMessages, hservice, hunsent,
          ProcessEvent.byThread, he]
        exact le_rfl
      · simp only [Process.served, hlog]
        exact le_rfl
  | alive hup hs => exact hs.lowers hseq h hstop hup

/-! ## The threads go on -/

/-- The receiver waits for a message, and the worker's signal is over. -/
structure Process.Missed (s : Process ι) : Prop where
  up : s.exited = false
  missed : s.missed = true
  receiver : s.receiver = .waiting
  loop : s.loop = .ended

/-- The worker waits for room in the response queue, and a call can take a
    message out of it. -/
structure Process.Stalled (limit : QueueLimit) (calls : ι → LibCall) (s : Process ι) : Prop where
  up : s.exited = false
  blocked : s.system.sendBlocked limit = true
  taken : ∃ r s', ProcessStep limit calls s (.step (.receive r)) s'

/-- What can keep the threads from going on. -/
theorem thread_goes_on
    (hadm : Run (guarded Admits Step) State.init (s.system.log.map Prod.snd) s.system.files)
    (h : Sane calls n buf s) (hserve : Servable calls s.system) (hstop : s.working = false) :
    s.Ended ∨ s.exited = true ∨ s.Missed ∨ s.Stalled limit calls ∨ ∃ e s', e.byThread = true ∧
      guarded (OfSystem (Regular calls)) (ProcessStep limit calls) s e s' := by
  cases hup : s.exited with
  | true => exact Or.inr (Or.inl rfl)
  | false =>
    -- a step of one of the threads
    have hgoes : ∀ {e : ProcessEvent ι} {s' : Process ι}, e.byThread = true →
        OfSystem (Regular calls) s e → AliveStep limit calls s e s' →
        s.Ended ∨ false = true ∨ s.Missed ∨ s.Stalled limit calls ∨ ∃ e s', e.byThread = true ∧
          guarded (OfSystem (Regular calls)) (ProcessStep limit calls) s e s' :=
      fun he hg hs => Or.inr (Or.inr (Or.inr (Or.inr ⟨_, _, he, hg, .alive hup hs⟩)))
    cases hloop : s.loop with
    | round =>
        cases hw : s.system.service.worker with
        | idle =>
            -- the signal handler has posted what the worker takes
            have hpost := h.watched.posted hstop
            have hfull : 0 < s.buffer.full := Nat.lt_of_lt_of_le hpost (Nat.le_add_left _ _)
            have hlock : s.buffer.lock = false := h.threads.works.accounted.unlocked
            obtain ⟨late, hfetch⟩ := getServiceReq_of_full hlock hfull
            exact hgoes (e := .leave) rfl trivial (.leaveIdle hloop hw hfetch hstop)
        | given k => exact hgoes (e := .leave) rfl trivial (.leaveGiven hloop hw hstop)
        | served k =>
            rcases served_goes_on limit h.threads hw with ⟨e, t, rfl | rfl, hs⟩ | hblocked
            · exact hgoes (e := .step .send) rfl ⟨trivial, trivial⟩ (.send hloop hs)
            · exact hgoes (e := .step .complete) rfl ⟨trivial, trivial⟩ (.complete hloop hs)
            · obtain ⟨r, t, hs⟩ := blocked_goes_on h.threads h.linear hblocked
              exact Or.inr (Or.inr (Or.inr (Or.inl ⟨hup, hblocked, r, _, .caller rfl hs⟩)))
    | checked =>
        obtain ⟨k, hw⟩ := h.watched.checked hloop
        obtain ⟨r, t, hadmits, hs⟩ := given_goes_on hadm h.threads hserve hw
        exact hgoes (e := .step (.execute stillEnv r)) rfl ⟨trivial, hadmits⟩ (.execute hloop hs)
    | left => exact hgoes (e := .interrupt) rfl trivial (.interrupt hloop)
    | ended =>
        cases hr : s.receiver with
        | checking => exact hgoes (e := .check) rfl trivial (.check hr)
        | entering => exact hgoes (e := .enter) rfl trivial (.enter hr)
        | waiting =>
            have hmissed := h.watched.missed hloop (Or.inr hr)
            exact Or.inr (Or.inr (Or.inl ⟨hup, hmissed, hr, hloop⟩))
        | ended => exact Or.inl ⟨hup, hr, hloop⟩

/-! ## The guards -/

/-- The request that is served gives the files what can be printed. -/
def ServesPrinted (calls : ι → LibCall) : SystemEvent ι → Prop
  | .execute env r => ∀ resp, Printed ⟨env, (calls r).request, resp⟩
  | _ => True

/-- The guard of the runs whose tables can be saved. -/
def Storing (calls : ι → LibCall) (s : System ι) (e : SystemEvent ι) : Prop :=
  Regular calls s e ∧ ServesPrinted calls e

omit [DecidableEq ι] in
/-- The guard contains that of the order. -/
theorem Storing.keeps (s : System ι) (e : SystemEvent ι) (h : Storing calls s e) :
    KeepsOrder s e := h.1.1

/-! ## A signal in a quiet process -/

omit [DecidableEq ι] in
/-- The worker takes what the signal handler has posted. -/
theorem fetch_posted (hlock : s.system.service.ring.buf.lock = false) :
    ∃ late, getServiceReq s.endService.buffer
      = .ok (s.endService.buffer.rdIdx, late) := by
  have hfull : 0 < s.endService.buffer.full := by
    show 0 < s.system.service.ring.buf.full + (s.posts + 1)
    omega
  exact getServiceReq_of_full (hlock : s.endService.buffer.lock = false) hfull

section Quiet

variable (limit) (calls) (G : System ι → SystemEvent ι → Prop)

/-- A signal that comes while the worker has looked at `working` lets it serve
    the request it was given, and the service ends behind that. -/
theorem Process.Undisturbed.serves_last (hp : s.Undisturbed) {k : Nat}
    (hw : s.system.service.worker = .given k) {env : Env} {r : ι} {s₁ s₂ s₃ : System ι}
    (h₁ : guarded G (SystemStep limit calls) s.system (.execute env r) s₁)
    (h₂ : guarded G (SystemStep limit calls) s₁ .send s₂)
    (h₃ : guarded G (SystemStep limit calls) s₂ .complete s₃)
    (hidle : s₃.service.worker = .idle) (hlock : s₃.service.ring.buf.lock = false) : ∃ s' t,
      Run (guarded (OfSystem G) (ProcessStep limit calls)) s [.pass, .signal .main] s' ∧
      s'.working = false ∧ s'.system = s.system ∧
      Run (guarded (OfSystem G) (ProcessStep limit calls)) s'
        [.step (.execute env r), .step .send, .step .complete, .check, .leave, .interrupt] t ∧
      t.Ended ∧ t.system = s₃ := by
  obtain ⟨hup, hworking, hreceiver, hloop⟩ := hp
  have hstep : ∀ {u v : Process ι} {e : ProcessEvent ι}, AliveStep limit calls u e v →
      u.exited = false → OfSystem G u e →
      Run (guarded (OfSystem G) (ProcessStep limit calls)) u [e] v :=
    fun h hu hg => .single ⟨hg, .alive hu h⟩
  let s' : Process ι := Process.endService { s with loop := .checked }
  let u₁ : Process ι := { s' with system := s₁, loop := .round }
  let u₂ : Process ι := { u₁ with system := s₂ }
  let u₃ : Process ι := { u₁ with system := s₃ }
  have hpass : AliveStep limit calls s .pass { s with loop := .checked } := .pass hloop hworking hw
  have hsignal : AliveStep limit calls { s with loop := .checked } (.signal .main) s' :=
    .signal .main
  have hexecute : AliveStep limit calls s' (.step (.execute env r)) u₁ := .execute rfl h₁.2
  have hsend : AliveStep limit calls u₁ (.step .send) u₂ := .send rfl h₂.2
  have hcomplete : AliveStep limit calls u₂ (.step .complete) u₃ := .complete rfl h₃.2
  have hcheck : AliveStep limit calls u₃ .check { u₃ with receiver := .ended } := .check hreceiver
  obtain ⟨late, hfetch⟩ := fetch_posted (s := { s with system := s₃ }) hlock
  have hleave : AliveStep limit calls { u₃ with receiver := .ended } .leave
      { u₃ with receiver := .ended, loop := .left, late := late } :=
    .leaveIdle rfl hidle hfetch rfl
  have hinterrupt : AliveStep limit calls
      { u₃ with receiver := .ended, loop := .left, late := late } .interrupt _ := .interrupt rfl
  have hbefore := (hstep hpass hup trivial).trans (hstep hsignal hup trivial)
  have hserved := ((hstep hexecute hup h₁.1).trans (hstep hsend hup h₂.1)).trans
    (hstep hcomplete hup h₃.1)
  have hended := ((hstep hcheck hup trivial).trans (hstep hleave hup trivial)).trans
    (hstep hinterrupt hup trivial)
  exact ⟨s', _, hbefore, rfl, rfl, hserved.trans hended, ⟨hup, rfl, rfl⟩, rfl⟩

/-- A signal that comes behind the receiver's check is missed, if the worker
    is through before the receiver gets to `msgrcv`. -/
theorem signal_missed (hp : s.Undisturbed) (hw : s.system.service.worker = .idle)
    (hlock : s.system.service.ring.buf.lock = false) : ∃ t,
      Run (guarded (OfSystem G) (ProcessStep limit calls)) s
        [.check, .signal .main, .leave, .interrupt, .enter] t ∧ t.Missed ∧
          t.system = s.system := by
  obtain ⟨hup, hworking, hreceiver, hloop⟩ := hp
  have hstep : ∀ {u v : Process ι} {e : ProcessEvent ι}, AliveStep limit calls u e v →
      u.exited = false → OfSystem G u e →
      Run (guarded (OfSystem G) (ProcessStep limit calls)) u [e] v :=
    fun h hu hg => .single ⟨hg, .alive hu h⟩
  let s₁ : Process ι := { s with receiver := .entering }
  let s₂ : Process ι := s₁.endService
  have hcheck : AliveStep limit calls s .check s₁ := by
    have h : AliveStep limit calls s .check { s with
        receiver := if s.working then .entering else .ended } := .check hreceiver
    rw [if_pos hworking] at h
    exact h
  have hsignal : AliveStep limit calls s₁ (.signal .main) s₂ := .signal .main
  obtain ⟨late, hfetch⟩ := fetch_posted (s := s₁) hlock
  have hleave : AliveStep limit calls s₂ .leave { s₂ with loop := .left, late := late } :=
    .leaveIdle hloop hw hfetch rfl
  have hinterrupt : AliveStep limit calls { s₂ with loop := .left, late := late } .interrupt _ :=
    .interrupt rfl
  have hbefore := (hstep hcheck hup trivial).trans (hstep hsignal hup trivial)
  have hleft := (hstep hleave hup trivial).trans (hstep hinterrupt hup trivial)
  have henter : AliveStep limit calls { s₂.endService with
      late := posted late 1
      loop := .ended
      missed := true } .enter _ := .enter rfl
  exact ⟨_, (hbefore.trans hleft).trans (hstep henter hup trivial), ⟨hup, rfl, rfl, rfl⟩, rfl⟩

end Quiet

/-! ## The service ends -/

/-- After a signal, the threads take only so many steps, whatever the callers
    do and in whatever order, and serve one more call at most; when none of
    them can go on, both have ended, or the process has exited, or the signal
    of the worker was missed, or the worker waits until a call takes a message
    out of the full response queue. -/
theorem service_ends (hseq : Function.Injective fun r => (calls r).seq)
    (hb : reqBufferCreate n = some buf)
    (hr : Run (guarded (OfSystem (Regular calls)) (ProcessStep limit calls))
      (Process.init calls buf) es s)
    (hstop : s.working = false)
    (hserve : ∀ ds t, Run (guarded (OfSystem (Regular calls)) (ProcessStep limit calls)) s ds t →
      Servable calls t.system)
    (hrun : Run (guarded (OfSystem (Regular calls)) (ProcessStep limit calls)) s ds t) :
    ds.countP ProcessEvent.byThread ≤ s.rank calls ∧
      t.system.log.length ≤ s.system.log.length + 1 ∧
      (t.Ended ∨ t.exited = true ∨ t.Missed ∨ t.Stalled limit calls ∨
        ∃ e t', e.byThread = true ∧
          guarded (OfSystem (Regular calls)) (ProcessStep limit calls) t e t') := by
  obtain ⟨⟨hsane, hstopped, hserved⟩, hcount⟩ := hrun.bounded
    (fun t => Sane calls n buf t ∧ t.working = false ∧ t.served ≤ s.served)
    (Process.rank calls) ProcessEvent.byThread
    ⟨sane_of_run Regular.keeps hseq hb hr, hstop, le_rfl⟩ fun u ev u' hu hs => by
      obtain ⟨hstopped, hrank, hserved⟩ := rank_lowers hseq hu.1 hu.2.1 hs.2
      exact ⟨⟨hu.1.step Regular.keeps hseq hb hs, hstopped, hserved.trans hu.2.2⟩, hrank⟩
  refine ⟨by omega, ?_, ?_⟩
  · have hle : s.served ≤ s.system.log.length + 1 := by
      rw [Process.served]
      split
      · exact le_rfl
      · exact Nat.le_succ _
    exact (Nat.le_add_right _ _).trans (hserved.trans hle)
  · obtain ⟨ds', hsystem⟩ := system_of_run (hr.trans hrun)
    exact thread_goes_on (admitted_of_run hseq hb hsystem) hsane (hserve ds t hrun) hstopped

/-- What the three calls ask for can be printed. -/
theorem threeCallers_printed (r : Fin 3) (resp : Response) :
    Printed ⟨stillEnv, (threeCallers r).request, resp⟩ := by
  have hnames : ∀ r, ∀ name ∈ newNameOf (threeRequests r), Plain name := by decide
  have hmodes : ∀ r, ∀ mode ∈ newModeOf (threeRequests r), IsInt32 mode := by decide
  have howners : ∀ r, ∀ ids ∈ newOwnerOf (threeRequests r),
      ids.1 < 4294967296 ∧ ids.2 < 4294967296 := by decide
  exact printed_of (hnames r) (hmodes r) (howners r) resp

/-- A part of the schedule gives the files what can be printed. -/
theorem three_storing {s t : System (Fin 3)} {es : List (SystemEvent (Fin 3))}
    (hprinted : ∀ e ∈ es, ServesPrinted threeCallers e)
    (hr : Run (guarded (Regular threeCallers) (SystemStep fourMessages threeCallers)) s es t) :
    Run (guarded (Storing threeCallers) (SystemStep fourMessages threeCallers)) s es t :=
  hr.of_own.mono fun _ e _ hs => ⟨⟨hs.2.1, hprinted e hs.1⟩, hs.2.2⟩

/-- The three callers' process, when a signal comes while the worker has the
    request to write before it. -/
theorem three_shut_down : ∃ (s t : Process (Fin 3)) (es : List (ProcessEvent (Fin 3))),
    Run (guarded (OfSystem (Storing threeCallers)) (ProcessStep fourMessages threeCallers))
      (Process.init threeCallers fourSlots) es s ∧ s.working = false ∧
    Run (guarded (OfSystem (Storing threeCallers)) (ProcessStep fourMessages threeCallers)) s
      [.step (.execute stillEnv 2), .step .send, .step .complete, .check, .leave, .interrupt] t ∧
    t.Ended ∧ s.system.log.map Prod.fst = [0, 1] ∧
      Admissible s.system.files (threeRequests 2) ∧ t.system.log.map Prod.fst = [0, 1, 2] := by
  obtain ⟨s, u, t, hs, hu, ht, ⟨hlog, hworker, hadmits⟩, ⟨hlog', hidle⟩, -⟩ := three_played
  obtain ⟨hbegin, hserve, -⟩ := three_runs hs hu ht
  have hprinted : ∀ e ∈ threeBegin ++ threeServe, ServesPrinted threeCallers e := by
    simp [threeBegin, threeServe, ServesPrinted, threeCallers_printed]
  have hbegin' := three_storing (fun e he => hprinted e (List.mem_append_left _ he)) hbegin
  have hserve' := three_storing (fun e he => hprinted e (List.mem_append_right _ he)) hserve
  obtain ⟨es, p, hp, rfl, hcalm⟩ := run_of_system hbegin'
  -- the worker's three steps
  obtain ⟨s₂, hserve', hcomplete⟩ := Run.last [SystemEvent.execute stillEnv 2, .send] hserve'
  obtain ⟨s₁, hserve', hsend⟩ := Run.last [SystemEvent.execute stillEnv 2] hserve'
  obtain ⟨s₀, hnone, hexecute⟩ := Run.last ([] : List (SystemEvent (Fin 3))) hserve'
  obtain rfl := hnone.of_nil rfl
  have hlock : u.service.ring.buf.lock = false :=
    (linear_of_run threeCallers_seq (n := 4) rfl
      (Regular.keepsOrder (hbegin.trans hserve))).1.works.accounted.unlocked
  obtain ⟨s', t', hsignal, hstop, hsame, hends, hended, rfl⟩ := hcalm.serves_last fourMessages
    threeCallers (Storing threeCallers) hworker hexecute hsend hcomplete hidle hlock
  have hw := wellLinked_of_run (linear_of_run threeCallers_seq (n := 4) rfl
    (Regular.keepsOrder hbegin)).2.run
  rw [← hsame] at hlog hadmits hw
  exact ⟨s', t', _, hp.trans hsignal, hstop, hends, hended, hlog,
    admissible_of_admits hw hadmits, hlog'⟩

/-- A signal comes while the worker has the last of the three requests before
    it: the threads take six more steps, serve it and end. -/
theorem three_calls_end : ∃ s t : Process (Fin 3), s.working = false ∧ t.Ended ∧
    s.system.log.map Prod.fst = [0, 1] ∧ t.system.log.map Prod.fst = [0, 1, 2] ∧
      6 ≤ s.rank threeCallers ∧ t.system.log.length ≤ s.system.log.length + 1 := by
  obtain ⟨s, t, es, hrun, hstop, hends, hended, hlog, hadmits, hlog'⟩ := three_shut_down
  have hregular : ∀ {s t : Process (Fin 3)} {es : List (ProcessEvent (Fin 3))},
      Run (guarded (OfSystem (Storing threeCallers)) (ProcessStep fourMessages threeCallers))
        s es t →
      Run (guarded (OfSystem (Regular threeCallers)) (ProcessStep fourMessages threeCallers))
        s es t := by
    intro s t es hr
    refine hr.mono ?_
    rintro s e s' ⟨hg, hs⟩
    cases e with
    | step => exact ⟨hg.1, hs⟩
    | _ => exact ⟨trivial, hs⟩
  have hlast : ∀ r : Fin 3, r ≠ 2 → r ∈ s.system.log.map Prod.fst := by
    rw [hlog]
    decide
  obtain ⟨ds, hsystem⟩ := system_of_run (hregular hrun)
  obtain ⟨hbound, hserved, -⟩ := service_ends threeCallers_seq (n := 4) rfl (hregular hrun) hstop
    (fun _ u hu => last_servable threeCallers_seq (n := 4) rfl hsystem hlast hadmits
      (system_of_run hu).choose_spec) (hregular hends)
  exact ⟨s, t, hstop, hended, hlog, hlog', hbound, hserved⟩

/-- Once the worker has ended, no call is served any more, and the only thread
    is the receiver. -/
theorem ended_keeps (hloop : s.loop = .ended) (hs : ProcessStep limit calls s e s') :
    s'.loop = .ended ∧ s'.system.log = s.system.log ∧ s'.system.files = s.system.files ∧
      (e.byThread = true → s.receiver = .checking ∨ s.receiver = .entering ∨
        ∃ r ∈ s.system.called, s.system.service.ring.pending r ≠ []) := by
  cases hs with
  | caller he hs =>
      obtain ⟨-, hfiles, hlog, -⟩ := hs.caller_keeps he
      refine ⟨hloop, hlog, hfiles, fun hthread => ?_⟩
      rw [ProcessEvent.byThread, he] at hthread
      cases hthread
  | alive _ hs =>
      cases hs with
      | signal thread =>
          have hsame := @Process.signalled_system _ limit s thread
          refine ⟨?_, by rw [hsame], by rw [hsame], fun h => by cases h⟩
          cases thread with
          | _ => exact hloop
      | check hr => exact ⟨hloop, rfl, rfl, fun _ => Or.inl hr⟩
      | enter hr => exact ⟨hloop, rfl, rfl, fun _ => Or.inr (Or.inl hr)⟩
      | lose _ _ hcalled hm =>
          refine ⟨hloop, rfl, rfl, fun _ => Or.inr (Or.inr ⟨_, hcalled, ?_⟩)⟩
          rw [hm]
          exact List.cons_ne_nil _ _
      | refuse _ hcalled hm =>
          refine ⟨hloop, rfl, rfl, fun _ => Or.inr (Or.inr ⟨_, hcalled, ?_⟩)⟩
          rw [hm]
          exact List.cons_ne_nil _ _
      | deliver _ hinside =>
          rw [hloop] at hinside
          cases hinside
      | fetch hround => cases hround.symm.trans hloop
      | pass hround => cases hround.symm.trans hloop
      | skip hround => cases hround.symm.trans hloop
      | execute hround => cases hround.symm.trans hloop
      | fail hround => cases hround.symm.trans hloop
      | send hround => cases hround.symm.trans hloop
      | complete hround => cases hround.symm.trans hloop
      | leaveIdle hround => cases hround.symm.trans hloop
      | leaveGiven hround => cases hround.symm.trans hloop
      | interrupt hround => cases hround.symm.trans hloop

/-- After a missed signal the service does not end until another message or
    signal comes. -/
theorem Process.Missed.stays (h : s.Missed)
    (hnone : ∀ r ∈ s.system.called, s.system.service.ring.pending r = [])
    (he : e.byThread = true) : ¬ ProcessStep limit calls s e s' := by
  intro hs
  obtain ⟨-, -, -, hthread⟩ := ended_keeps h.loop hs
  rcases hthread he with hchecking | hentering | ⟨r, hcalled, hmore⟩
  · cases hchecking.symm.trans h.receiver
  · cases hentering.symm.trans h.receiver
  · exact hmore (hnone r hcalled)

/-! ## What is saved, and what returns -/

end LibfsSpecs
