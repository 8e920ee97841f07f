import Libfs.Answered
import Libfs.Lives

/-! # The process of `service.c`

    `main` starts the receiver and the worker and waits for both to end before
    it saves the tables.  A signal clears `working` and posts the semaphore
    the worker waits on.  The worker looks at `working` behind every wait, the
    receiver before every message; the worker that leaves its loop sends the
    receiver the same signal, which ends it in `msgrcv` only.  The process can
    also exit at once, and then it saves nothing: on a message the ring buffer
    refuses, on a request that cannot be served, and on a signal that reaches
    the worker while it waits for room in the response queue. -/

namespace LibfsSpecs

open LibfsHeap LibfsStdio LibfsCommon LibfsInode LibfsOperations LibfsRun LibfsBuffer LibfsQueue
  LibfsRequests

/-! ## The two loops -/

/-- Where the receiver is: at the check of its loop, between that and
    `msgrcv`, in `msgrcv`, or at its end. -/
inductive Receiver where
  | checking
  | entering
  | waiting
  | ended
deriving DecidableEq

/-- The signal handler has run in the receiver: `msgrcv` fails with `EINTR`. -/
def Receiver.interrupted : Receiver → Receiver
  | .waiting => .ended
  | receiver => receiver

/-- Where the worker is: in a round before it looks at `working` or behind the
    handler, between the two, outside of its loop, or at its end. -/
inductive Loop where
  | round
  | checked
  | left
  | ended
deriving DecidableEq

/-- The worker is in its loop. -/
def Loop.inside : Loop → Bool
  | .round | .checked => true
  | .left | .ended => false

/-- The threads a signal can reach. -/
inductive Thread where
  | main
  | receiver
  | worker
deriving DecidableEq

/-- `sem_post(&rbuf->full)`, `n` times. -/
def posted (rbuf : ReqBuffer) (n : Nat) : ReqBuffer := { rbuf with full := rbuf.full + n }

variable {ι : Type}

/-- The state of the process.  `posts` counts what the signal handler has
    posted, which the buffer of the system does without; `late` is the buffer
    behind the last `get_service_req` of the worker, and `lost` are the
    requests a message of which came in after it.  `missed` records that the
    worker's signal came between the receiver's check and its `msgrcv`, and
    `exited` that a thread has called `exit(EXIT_FAILURE)`. -/
structure Process (ι : Type) where
  system : System ι
  working : Bool
  posts : Nat
  receiver : Receiver
  loop : Loop
  late : ReqBuffer
  lost : List ι
  missed : Bool
  exited : Bool

/-- What happens to the process: a step of the system, a signal that reaches a
    thread, and what the threads do besides. -/
inductive ProcessEvent (ι : Type) where
  | step (e : SystemEvent ι)
  | signal (thread : Thread)
  | check
  | enter
  | pass
  | leave
  | interrupt
  | lose (env : Env) (r : ι)
  | refuse (env : Env) (r : ι)
  | fail (env : Env)

/-- The callers' steps. -/
def SystemEvent.byCaller : SystemEvent ι → Bool
  | .call _ | .receive _ | .return _ => true
  | _ => false

/-- The steps of the two threads. -/
def ProcessEvent.byThread : ProcessEvent ι → Bool
  | .step e => !e.byCaller
  | .signal _ => false
  | _ => true

/-- `main`, with both threads at their beginning. -/
def Process.init (calls : ι → LibCall) (buf : ReqBuffer) : Process ι where
  system := System.init calls buf
  working := true
  posts := 0
  receiver := .checking
  loop := .round
  late := buf
  lost := []
  missed := false
  exited := false

/-- The ring buffer the worker waits on, as long as it is in its loop. -/
def Process.buffer (s : Process ι) : ReqBuffer := posted s.system.service.ring.buf s.posts

/-- The ring buffer the receiver handles a message in.  `handle_msg` does not
    look at what was posted. -/
def Process.handling (s : Process ι) : ReqBuffer :=
  if s.loop.inside = true then s.system.service.ring.buf else s.late

/-- `end_service`. -/
def Process.endService (s : Process ι) : Process ι :=
  { s with working := false, posts := s.posts + 1, late := posted s.late 1 }

/-- The signal handler runs in a thread, and what the thread waits for fails
    with `EINTR`: `msgrcv` ends the loop of the receiver, and `msgsnd` makes
    the worker exit.  `sem_wait` lets the worker go on, which the post of the
    handler does too. -/
def Process.signalled (limit : QueueLimit) (s : Process ι) : Thread → Process ι
  | .main => s.endService
  | .receiver => { s.endService with receiver := s.receiver.interrupted }
  | .worker => { s.endService with exited := s.system.sendBlocked limit }

/-- Both threads have ended, and `main` goes on to save the tables. -/
structure Process.Ended (s : Process ι) : Prop where
  up : s.exited = false
  receiver : s.receiver = .ended
  loop : s.loop = .ended

section Steps

variable [DecidableEq ι]

/-- The steps of a process that has not exited: those of the two threads in the
    system, each where its thread is there for it, and what happens besides.
    The worker leaves at the check behind `get_service_req`, whether it got
    there before the signal or through it.  A message that comes in then is
    handled in the buffer it has left; there is one at most, since the receiver
    goes on to its check. -/
inductive AliveStep (limit : QueueLimit) (calls : ι → LibCall) :
    Process ι → ProcessEvent ι → Process ι → Prop where
  | signal {s : Process ι} (thread : Thread) :
      AliveStep limit calls s (.signal thread) (s.signalled limit thread)
  | check {s : Process ι} (hr : s.receiver = .checking) :
      AliveStep limit calls s .check { s with
        receiver := if s.working then .entering else .ended }
  | enter {s : Process ι} (hr : s.receiver = .entering) :
      AliveStep limit calls s .enter { s with receiver := .waiting }
  | deliver {s : Process ι} {env : Env} {r : ι} {system : System ι} (hr : s.receiver = .waiting)
      (hloop : s.loop.inside = true)
      (h : SystemStep limit calls s.system (.deliver env r) system) :
      AliveStep limit calls s (.step (.deliver env r)) { s with
        system := system
        receiver := .checking }
  | lose {s : Process ι} {env : Env} {r : ι} {m : RequestMsg} {rest : List RequestMsg}
      {late : ReqBuffer} (hr : s.receiver = .waiting) (hloop : s.loop.inside = false)
      (hcalled : r ∈ s.system.called) (hm : s.system.service.ring.pending r = m :: rest)
      (hb : handleMsg env s.late (received m) = .ok (0, late)) :
      AliveStep limit calls s (.lose env r) { s with
        late := late
        lost := s.lost ++ [r]
        receiver := .checking }
  | refuse {s : Process ι} {env : Env} {r : ι} {m : RequestMsg} {rest : List RequestMsg}
      {status : Int} {rbuf : ReqBuffer} (hr : s.receiver = .waiting)
      (hcalled : r ∈ s.system.called) (hm : s.system.service.ring.pending r = m :: rest)
      (hb : handleMsg env s.handling (received m) = .ok (status, rbuf)) (hstatus : status ≠ 0) :
      AliveStep limit calls s (.refuse env r) { s with exited := true }
  | fetch {s : Process ι} {system : System ι} (hloop : s.loop = .round)
      (hworking : s.working = true) (h : SystemStep limit calls s.system .fetch system) :
      AliveStep limit calls s (.step .fetch) { s with system := system }
  | pass {s : Process ι} {k : Nat} (hloop : s.loop = .round) (hworking : s.working = true)
      (hw : s.system.service.worker = .given k) :
      AliveStep limit calls s .pass { s with loop := .checked }
  | skip {s : Process ι} {system : System ι} (hloop : s.loop = .checked)
      (h : SystemStep limit calls s.system .skip system) :
      AliveStep limit calls s (.step .skip) { s with system := system, loop := .round }
  | execute {s : Process ι} {env : Env} {r : ι} {system : System ι} (hloop : s.loop = .checked)
      (h : SystemStep limit calls s.system (.execute env r) system) :
      AliveStep limit calls s (.step (.execute env r)) { s with
        system := system
        loop := .round }
  | fail {s : Process ι} {env : Env} {k : Nat} {slot : ServiceReq} (hloop : s.loop = .checked)
      (hw : s.system.service.worker = .given k)
      (hs : s.system.service.ring.buf.slot k = .ok slot) (hp : slot.reqStatus ≠ .inProgress)
      (hop : slot.reqStatus = .ready → operate s.system.files env slot = .error .exitFailure) :
      AliveStep limit calls s (.fail env) { s with exited := true }
  | send {s : Process ι} {system : System ι} (hloop : s.loop = .round)
      (h : SystemStep limit calls s.system .send system) :
      AliveStep limit calls s (.step .send) { s with system := system }
  | complete {s : Process ι} {system : System ι} (hloop : s.loop = .round)
      (h : SystemStep limit calls s.system .complete system) :
      AliveStep limit calls s (.step .complete) { s with system := system }
  | leaveIdle {s : Process ι} {k : Nat} {late : ReqBuffer} (hloop : s.loop = .round)
      (hw : s.system.service.worker = .idle) (hb : getServiceReq s.buffer = .ok (k, late))
      (hworking : s.working = false) :
      AliveStep limit calls s .leave { s with loop := .left, late := late }
  | leaveGiven {s : Process ι} {k : Nat} (hloop : s.loop = .round)
      (hw : s.system.service.worker = .given k) (hworking : s.working = false) :
      AliveStep limit calls s .leave { s with loop := .left, late := s.buffer }
  | interrupt {s : Process ι} (hloop : s.loop = .left) :
      AliveStep limit calls s .interrupt { s.endService with
        receiver := s.receiver.interrupted
        loop := .ended
        missed := decide (s.receiver = .entering) }

/-- The callers are processes of their own, and go on in any case. -/
inductive ProcessStep (limit : QueueLimit) (calls : ι → LibCall) :
    Process ι → ProcessEvent ι → Process ι → Prop where
  | caller {s : Process ι} {e : SystemEvent ι} {system : System ι} (he : e.byCaller = true)
      (h : SystemStep limit calls s.system e system) :
      ProcessStep limit calls s (.step e) { s with system := system }
  | alive {s s' : Process ι} {e : ProcessEvent ι} (hup : s.exited = false)
      (h : AliveStep limit calls s e s') : ProcessStep limit calls s e s'

variable {limit : QueueLimit} {calls : ι → LibCall} {n : Nat} {buf : ReqBuffer}
  {s s' : Process ι} {e : ProcessEvent ι} {es : List (ProcessEvent ι)}

/-! ## The process and the system -/

omit [DecidableEq ι] in
/-- A signal leaves the system as it is. -/
@[simp] theorem Process.signalled_system (thread : Thread) :
    (s.signalled limit thread).system = s.system := by
  cases thread with
  | _ => rfl

/-- A step of the process takes the system one step on, or leaves it as it is. -/
theorem ProcessStep.system (h : ProcessStep limit calls s e s') :
    s'.system = s.system ∨ ∃ e', e = .step e' ∧ SystemStep limit calls s.system e' s'.system := by
  cases h with
  | caller _ h => exact Or.inr ⟨_, rfl, h⟩
  | alive _ h =>
      cases h with
      | signal thread => exact Or.inl (Process.signalled_system thread)
      | deliver _ _ h => exact Or.inr ⟨_, rfl, h⟩
      | fetch _ _ h => exact Or.inr ⟨_, rfl, h⟩
      | skip _ h => exact Or.inr ⟨_, rfl, h⟩
      | execute _ h => exact Or.inr ⟨_, rfl, h⟩
      | send _ h => exact Or.inr ⟨_, rfl, h⟩
      | complete _ h => exact Or.inr ⟨_, rfl, h⟩
      | _ => exact Or.inl rfl

/-- A guard of the system's steps. -/
def OfSystem (G : System ι → SystemEvent ι → Prop) (s : Process ι) : ProcessEvent ι → Prop
  | .step e => G s.system e
  | _ => True

/-- What the process does is a run of the system. -/
theorem system_of_run {G : System ι → SystemEvent ι → Prop}
    (hr : Run (guarded (OfSystem G) (ProcessStep limit calls)) s es s') :
    ∃ ds, Run (guarded G (SystemStep limit calls)) s.system ds s'.system := by
  induction hr with
  | start => exact ⟨[], .start⟩
  | next _ hs ih =>
      obtain ⟨ds, hrun⟩ := ih
      obtain ⟨hg, hs⟩ := hs
      rcases hs.system with hsame | ⟨e', rfl, hstep⟩
      · rw [hsame]
        exact ⟨ds, hrun⟩
      · exact ⟨_, .next hrun ⟨hg, hstep⟩⟩

/-- A process that goes on as if there were no signals. -/
structure Process.Undisturbed (s : Process ι) : Prop where
  up : s.exited = false
  working : s.working = true
  receiver : s.receiver = .checking
  loop : s.loop = .round

section Undisturbed

variable (limit) (calls) (G : System ι → SystemEvent ι → Prop)

/-- The receiver gets to `msgrcv`. -/
theorem Process.Undisturbed.waits (hp : s.Undisturbed) :
    Run (guarded (OfSystem G) (ProcessStep limit calls)) s [.check, .enter]
      { s with receiver := .waiting } := by
  have hcheck : AliveStep limit calls s .check { s with
      receiver := if s.working then .entering else .ended } := .check hp.receiver
  rw [if_pos hp.working] at hcheck
  have henter : AliveStep limit calls { s with receiver := .entering } .enter
      { s with receiver := .waiting } := .enter rfl
  have hrun : Run (guarded (OfSystem G) (ProcessStep limit calls)) s [.check]
      { s with receiver := .entering } := .single ⟨trivial, .alive hp.up hcheck⟩
  exact hrun.trans (.single ⟨trivial, .alive hp.up henter⟩)

/-- The worker gets to the request it was given. -/
theorem Process.Undisturbed.passes (hp : s.Undisturbed) {k : Nat}
    (hw : s.system.service.worker = .given k) :
    Run (guarded (OfSystem G) (ProcessStep limit calls)) s [.pass] { s with loop := .checked } :=
  .single ⟨trivial, .alive hp.up (.pass hp.loop hp.working hw)⟩

end Undisturbed

/-- Every run of the system is one of the process, in which no signal comes. -/
theorem run_of_system {G : System ι → SystemEvent ι → Prop} {ds : List (SystemEvent ι)}
    {t : System ι} (hr : Run (guarded G (SystemStep limit calls)) (System.init calls buf) ds t) :
    ∃ es p, Run (guarded (OfSystem G) (ProcessStep limit calls)) (Process.init calls buf) es p ∧
      p.system = t ∧ p.Undisturbed := by
  induction hr with
  | start => exact ⟨[], Process.init calls buf, .start, rfl, rfl, rfl, rfl, rfl⟩
  | @next ds t t' e _ hs ih =>
      obtain ⟨es, p, hrun, rfl, hp⟩ := ih
      obtain ⟨hg, hs⟩ := hs
      have hguard : ∀ q : Process ι, q.system = p.system → OfSystem G q (.step e) :=
        fun q hq => (congrArg (fun t => G t e) hq).mpr hg
      have hwaits := hp.waits limit calls G
      have hpasses := fun k => hp.passes limit calls G (k := k)
      obtain ⟨hup, hworking, hreceiver, hloop⟩ := hp
      cases e with
      | call r =>
          exact ⟨_, _, .next hrun ⟨hguard _ rfl, .caller rfl hs⟩, rfl, hup, hworking, hreceiver,
            hloop⟩
      | receive r =>
          exact ⟨_, _, .next hrun ⟨hguard _ rfl, .caller rfl hs⟩, rfl, hup, hworking, hreceiver,
            hloop⟩
      | «return» r =>
          exact ⟨_, _, .next hrun ⟨hguard _ rfl, .caller rfl hs⟩, rfl, hup, hworking, hreceiver,
            hloop⟩
      | deliver env r =>
          have hinside : p.loop.inside = true := by rw [hloop, Loop.inside]
          have hdeliver : AliveStep limit calls { p with receiver := .waiting } _ _ :=
            .deliver rfl hinside hs
          exact ⟨_, _, .next (hrun.trans hwaits) ⟨hguard _ rfl, .alive hup hdeliver⟩, rfl, hup,
            hworking, rfl, hloop⟩
      | fetch =>
          exact ⟨_, _, .next hrun ⟨hguard _ rfl, .alive hup (.fetch hloop hworking hs)⟩, rfl, hup,
            hworking, hreceiver, hloop⟩
      | skip =>
          obtain ⟨k, hw⟩ : ∃ k, p.system.service.worker = .given k := by
            cases hs with
            | skip hs => cases hs with
              | skip hw => exact ⟨_, hw⟩
          have hskip : AliveStep limit calls { p with loop := .checked } _ _ := .skip rfl hs
          exact ⟨_, _, .next (hrun.trans (hpasses k hw)) ⟨hguard _ rfl, .alive hup hskip⟩, rfl, hup,
            hworking, hreceiver, rfl⟩
      | execute env r =>
          obtain ⟨k, hw⟩ : ∃ k, p.system.service.worker = .given k := by
            cases hs with
            | execute hw => exact ⟨_, hw⟩
          have hexecute : AliveStep limit calls { p with loop := .checked } _ _ := .execute rfl hs
          exact ⟨_, _, .next (hrun.trans (hpasses k hw)) ⟨hguard _ rfl, .alive hup hexecute⟩, rfl,
            hup, hworking, hreceiver, rfl⟩
      | send =>
          exact ⟨_, _, .next hrun ⟨hguard _ rfl, .alive hup (.send hloop hs)⟩, rfl, hup, hworking,
            hreceiver, hloop⟩
      | complete =>
          exact ⟨_, _, .next hrun ⟨hguard _ rfl, .alive hup (.complete hloop hs)⟩, rfl, hup,
            hworking, hreceiver, hloop⟩

/-! ## What every step keeps -/

/-- The flag, the semaphore and the two loops. -/
structure Watched (s : Process ι) : Prop where
  unposted : s.working = true → s.posts = 0
  posted : s.working = false → 0 < s.posts
  checked : s.loop = .checked → ∃ k, s.system.service.worker = .given k
  stopped : s.loop.inside = false → s.working = false
  answered : s.loop.inside = false → ∀ k, s.system.service.worker ≠ .served k
  missed : s.loop = .ended → s.receiver = .entering ∨ s.receiver = .waiting → s.missed = true

omit [DecidableEq ι] in
/-- At the beginning no signal has come. -/
theorem watched_init (buf : ReqBuffer) : Watched (Process.init calls buf) where
  unposted := fun _ => rfl
  posted := fun h => by cases h
  checked := fun h => by cases h
  stopped := fun h => by cases h
  answered := fun h => by cases h
  missed := fun h => by cases h

/-- The callers leave the service alone. -/
theorem SystemStep.caller_keeps {t t' : System ι} {ev : SystemEvent ι} (he : ev.byCaller = true)
    (h : SystemStep limit calls t ev t') : t'.service = t.service ∧ t'.files = t.files ∧
      t'.log = t.log ∧ t'.unsent = t.unsent := by
  cases h with
  | call => exact ⟨rfl, rfl, rfl, rfl⟩
  | receive => exact ⟨rfl, rfl, rfl, rfl⟩
  | «return» => exact ⟨rfl, rfl, rfl, rfl⟩
  | _ => cases he

/-- A signal ends the wait for a message. -/
theorem Receiver.interrupted_waiting (receiver : Receiver) : receiver.interrupted ≠ .waiting := by
  cases receiver with
  | waiting => exact fun h => by cases h
  | _ => exact fun h => by cases h

/-- A signal does not bring the receiver to its call. -/
theorem Receiver.interrupted_entering {receiver : Receiver}
    (h : receiver.interrupted = .entering) : receiver = .entering := by
  cases receiver with
  | entering => rfl
  | _ => cases h

omit [DecidableEq ι] in
/-- Before the worker looks at the flag, nothing is said of its loop. -/
theorem Watched.in_round (h : Watched s) (hloop : s'.loop = .round)
    (hworking : s'.working = s.working) (hposts : s'.posts = s.posts) : Watched s' where
  unposted := by
    rw [hworking, hposts]
    exact h.unposted
  posted := by
    rw [hworking, hposts]
    exact h.posted
  checked := fun hc => by cases hc.symm.trans hloop
  stopped := fun ho => by
    rw [hloop, Loop.inside] at ho
    cases ho
  answered := fun ho => by
    rw [hloop, Loop.inside] at ho
    cases ho
  missed := fun he => by cases he.symm.trans hloop

omit [DecidableEq ι] in
/-- The handler posts what the worker is to wait for. -/
theorem Watched.signalled (h : Watched s) (thread : Thread) :
    Watched (s.signalled limit thread) := by
  cases thread with
  | main =>
      exact { h with
        unposted := fun hworking => by cases hworking
        posted := fun _ => Nat.succ_pos _
        stopped := fun _ => rfl }
  | receiver =>
      refine { h with
        unposted := fun hworking => by cases hworking
        posted := fun _ => Nat.succ_pos _
        stopped := fun _ => rfl
        missed := ?_ }
      rintro hloop (hentering | hwaiting)
      · exact h.missed hloop (Or.inl (Receiver.interrupted_entering hentering))
      · exact absurd hwaiting (Receiver.interrupted_waiting _)
  | worker =>
      exact { h with
        unposted := fun hworking => by cases hworking
        posted := fun _ => Nat.succ_pos _
        stopped := fun _ => rfl }

omit [DecidableEq ι] in
/-- The worker leaves its loop before it serves anything. -/
theorem Watched.left (h : Watched s) (hworking : s.working = false)
    (hw : ∀ k, s.system.service.worker ≠ .served k) (late : ReqBuffer) :
    Watched { s with loop := .left, late := late } :=
  { h with
    checked := fun hc => by cases hc
    stopped := fun _ => hworking
    answered := fun _ => hw
    missed := fun hl => by cases hl }

/-- A step of the process keeps the watch. -/
theorem Watched.step (h : Watched s) (hs : ProcessStep limit calls s e s') : Watched s' := by
  cases hs with
  | caller he hs =>
      obtain ⟨hservice, -⟩ := hs.caller_keeps he
      refine { h with checked := ?_, answered := ?_ }
      · rw [hservice]
        exact h.checked
      · rw [hservice]
        exact h.answered
  | alive _ hs =>
      cases hs with
      | signal thread => exact h.signalled thread
      | check hr =>
          refine { h with missed := ?_ }
          intro hloop hreceiver
          -- the worker has ended, so that the receiver ends at its check
          have hworking : s.working = false := h.stopped (by rw [hloop, Loop.inside])
          simp only [hworking] at hreceiver
          rcases hreceiver with hentering | hwaiting
          · cases hentering
          · cases hwaiting
      | enter hr => exact { h with missed := fun hloop _ => h.missed hloop (Or.inl hr) }
      | deliver hr hloop hs =>
          cases hs with
          | deliver _ hs =>
              obtain ⟨m, rest, buf', -, -, rfl⟩ := hs.delivered
              refine { h with missed := ?_ }
              rintro - (hentering | hwaiting)
              · cases hentering
              · cases hwaiting
      | lose hr =>
          refine { h with missed := ?_ }
          rintro - (hentering | hwaiting)
          · cases hentering
          · cases hwaiting
      | refuse => exact { h with }
      | fail => exact { h with }
      | fetch hloop => exact h.in_round hloop rfl rfl
      | pass hloop _ hw =>
          refine { h with
            checked := fun _ => ⟨_, hw⟩
            stopped := fun ho => by cases ho
            answered := fun ho => by cases ho
            missed := fun hl => by cases hl }
      | skip => exact h.in_round rfl rfl rfl
      | execute => exact h.in_round rfl rfl rfl
      | send hloop => exact h.in_round hloop rfl rfl
      | complete hloop => exact h.in_round hloop rfl rfl
      | leaveIdle hloop hw _ hworking =>
          exact h.left hworking (fun k hk => by cases hk.symm.trans hw) _
      | leaveGiven hloop hw hworking =>
          exact h.left hworking (fun k hk => by cases hk.symm.trans hw) _
      | interrupt hloop =>
          refine { h with
            unposted := fun hworking => by cases hworking
            posted := fun _ => Nat.succ_pos _
            checked := fun hc => by cases hc
            stopped := fun _ => rfl
            answered := fun _ => h.answered (by rw [hloop, Loop.inside])
            missed := ?_ }
          rintro - (hentering | hwaiting)
          · exact decide_eq_true (Receiver.interrupted_entering hentering)
          · exact absurd hwaiting (Receiver.interrupted_waiting _)

end Steps

end LibfsSpecs
