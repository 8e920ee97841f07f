import Libfs.Reassembly
import Libfs.Refinement
import Libfs.Returns

/-! # The service and its callers

    The callers put the parts of their requests into one queue and wait for
    the messages of their responses in the other.  The receiver thread moves
    the parts into the ring buffer, the worker thread takes a complete request
    out of it, serves it on the tables, and sends the messages of the answer
    one by one.  All of these steps come in any order. -/

namespace LibfsSpecs

open LibfsHeap LibfsStdio LibfsCommon LibfsInode LibfsOperations LibfsRun LibfsBuffer LibfsQueue
  LibfsRequests

/-- A call of a function of `libfs.c`: what it asks for, the number it drew, the
    memory it runs in, `libfs_errno`, and the buffer it is to fill. -/
structure LibCall where
  request : Request
  seq : Int
  env : Env
  errno : Int
  buf : Bytes
  inRange : InRange request
  positive : 0 < seq
  room : roomFor request ≤ buf.length

namespace LibCall

variable (c : LibCall)

/-- The bytes the call sends. -/
def payload : Bytes := (LibfsRequests.payload c.env c.request).toOption.getD []

/-- The payload of a call is read back as its request. -/
theorem payload_survives : LibfsRequests.payload c.env c.request = .ok c.payload ∧
    c.payload.length < 4294967296 ∧ decode (requestType c.request) c.payload = .ok c.request := by
  obtain ⟨data, hdata, hlen, hdecode⟩ := request_survives c.env c.inRange
  have hpayload : c.payload = data := by
    rw [payload, hdata]
    rfl
  rw [hpayload]
  exact ⟨hdata, hlen, hdecode⟩

/-- The request as it goes through the queue. -/
def clientReq : ClientReq := ⟨requestType c.request, c.seq, c.payload, c.payload_survives.2.1⟩

/-- The call after its request is sent, on the messages it has got. -/
def receive (got : List ResponseMsg) : C Returned :=
  receiveCall c.env got c.seq c.errno c.buf (requestType c.request)

/-- The call asks the queue for a message. -/
def waits (got : List ResponseMsg) : Bool :=
  match c.receive got with
  | .error .blocked => true
  | _ => false

/-- The messages that answer the call. -/
def answer (e : Event) : List ResponseMsg :=
  answerMessages e.env c.seq e.response (requestType c.request)

/-- What the call returns when it is answered so. -/
def result (e : Event) : Returned :=
  LibfsSpecs.returned e.response (requestType c.request) c.errno c.buf []

end LibCall

/-- What the queue of the responses holds: `msgsnd` waits until there is room
    for the message behind those that are in it.  Every message fits the empty
    queue. -/
structure QueueLimit where
  takes : List ResponseMsg → ResponseMsg → Bool
  empty : ∀ m, takes [] m = true

variable {ι : Type}

/-- The state of everything.  `log` records which call was served when and
    with what answer; messages carry the call they answer along, which no step
    looks at. -/
structure System (ι : Type) where
  service : Service ι
  files : State
  called : List ι
  log : List (ι × Event)
  unsent : List (ι × ResponseMsg)
  queue : List (ι × ResponseMsg)
  got : ι → List ResponseMsg
  returned : ι → Option Returned

/-- What can happen: a step of the service, of the worker with the queue, or of
    a call. -/
inductive SystemEvent (ι : Type) where
  | call (r : ι)
  | deliver (env : Env) (r : ι)
  | fetch
  | skip
  | execute (env : Env) (r : ι)
  | send
  | complete
  | receive (r : ι)
  | «return» (r : ι)

/-- The service before the first call. -/
def System.init (calls : ι → LibCall) (buf : ReqBuffer) : System ι where
  service := Service.init (fun r => (calls r).clientReq) buf
  files := State.init
  called := []
  log := []
  unsent := []
  queue := []
  got := fun _ => []
  returned := fun _ => none

/-- The worker waits in `msgsnd` for room in the response queue. -/
def System.sendBlocked (limit : QueueLimit) (s : System ι) : Bool :=
  match s.unsent with
  | [] => false
  | m :: _ => !limit.takes (s.queue.map Prod.snd) m.2

/-- The worker is blocked if the queue does not take its next message. -/
theorem System.sendBlocked_cons {limit : QueueLimit} {s : System ι} {m : ι × ResponseMsg}
    {ms : List (ι × ResponseMsg)} (hm : s.unsent = m :: ms) :
    s.sendBlocked limit = !limit.takes (s.queue.map Prod.snd) m.2 := by
  rw [System.sendBlocked, hm]

/-- There is a message in the queue the worker waits for. -/
theorem System.queue_of_blocked {limit : QueueLimit} {s : System ι}
    (h : s.sendBlocked limit = true) : s.queue ≠ [] := by
  intro hnone
  cases hm : s.unsent with
  | nil =>
      rw [System.sendBlocked, hm] at h
      cases h
  | cons m ms =>
      rw [System.sendBlocked_cons hm, hnone, List.map_nil, limit.empty] at h
      cases h

section Steps

variable [DecidableEq ι]

/-- The receiver and the worker take the steps of the ring buffer.  The worker
    serves the request of the slot it holds, sends what it answers as the queue
    has room for it, and gives the slot back.  A call takes a message of its type
    while its code waits for one, and returns when its code does. -/
inductive SystemStep (limit : QueueLimit) (calls : ι → LibCall) :
    System ι → SystemEvent ι → System ι → Prop where
  | call {s : System ι} {r : ι} (hnew : r ∉ s.called) :
      SystemStep limit calls s (.call r) { s with called := s.called ++ [r] }
  | deliver {s : System ι} {env : Env} {r : ι} {service : Service ι} (hcalled : r ∈ s.called)
      (h : ServiceStep s.service (.deliver env r) service) :
      SystemStep limit calls s (.deliver env r) { s with service := service }
  | fetch {s : System ι} {service : Service ι} (h : ServiceStep s.service .fetch service) :
      SystemStep limit calls s .fetch { s with service := service }
  | skip {s : System ι} {service : Service ι} (h : ServiceStep s.service .skip service) :
      SystemStep limit calls s .skip { s with service := service }
  | execute {s : System ι} {env : Env} {r : ι} {k : Nat} {slot : ServiceReq} {service : Service ι}
      {files : State} {resp : Response} (hw : s.service.worker = .given k)
      (hs : s.service.ring.buf.slot k = .ok slot) (hr : (calls r).seq = slot.seq)
      (h : ServiceStep s.service .execute service)
      (hop : operate s.files env slot = .ok (files, resp)) :
      SystemStep limit calls s (.execute env r) { s with
        service := service
        files := files
        log := s.log ++ [(r, ⟨env, (calls r).request, resp⟩)]
        unsent := (answerMessages env slot.seq resp slot.type).map (Prod.mk r) }
  | send {s : System ι} {m : ι × ResponseMsg} {ms : List (ι × ResponseMsg)}
      (hm : s.unsent = m :: ms) (hroom : limit.takes (s.queue.map Prod.snd) m.2 = true) :
      SystemStep limit calls s .send { s with unsent := ms, queue := s.queue ++ [m] }
  | complete {s : System ι} {service : Service ι} (hsent : s.unsent = [])
      (h : ServiceStep s.service .complete service) :
      SystemStep limit calls s .complete { s with service := service }
  | receive {s : System ι} {r c : ι} {m : ResponseMsg} {queue : List (ι × ResponseMsg)}
      (hcalled : r ∈ s.called) (hwait : (calls r).receive (s.got r) = .error .blocked)
      (hm : take (fun x => ofType (calls r).seq x.2) s.queue = some ((c, m), queue)) :
      SystemStep limit calls s (.receive r) { s with
        queue := queue
        got := Function.update s.got r (s.got r ++ [m]) }
  | «return» {s : System ι} {r : ι} {ret : Returned} (hopen : s.returned r = none)
      (hret : (calls r).receive (s.got r) = .ok ret) :
      SystemStep limit calls s (.return r) { s with
        returned := Function.update s.returned r (some ret) }

/-- What the receiver does with the next part of a request. -/
theorem ServiceStep.delivered {s s' : Service ι} {env : Env} {r : ι}
    (h : ServiceStep s (.deliver env r) s') :
    ∃ m rest buf, s.ring.pending r = m :: rest ∧
      handleMsg env s.ring.buf (received m) = .ok (0, buf) ∧
      s' = { s with ring := s.ring.handled r m rest buf } := by
  cases h with
  | deliver hring =>
      cases hring with
      | deliver hm hb => exact ⟨_, _, _, hm, hb, rfl⟩

/-! ## Steps that are computed -/

/-- One step of the system, if it is possible. -/
def System.step (limit : QueueLimit) (calls : ι → LibCall) (s : System ι) :
    SystemEvent ι → Option (System ι)
  | .call r => do
      guard (r ∉ s.called)
      some { s with called := s.called ++ [r] }
  | .deliver env r => do
      guard (r ∈ s.called)
      let service ← s.service.step (.deliver env r)
      some { s with service := service }
  | .fetch => do
      let service ← s.service.step .fetch
      some { s with service := service }
  | .skip => do
      let service ← s.service.step .skip
      some { s with service := service }
  | .execute env r => do
      let k ← s.service.worker.slotGiven
      let slot ← (s.service.ring.buf.slot k).toOption
      guard ((calls r).seq = slot.seq)
      let service ← s.service.step .execute
      let p ← (operate s.files env slot).toOption
      some { s with
        service := service
        files := p.1
        log := s.log ++ [(r, ⟨env, (calls r).request, p.2⟩)]
        unsent := (answerMessages env slot.seq p.2 slot.type).map (Prod.mk r) }
  | .send =>
      match s.unsent with
      | [] => none
      | m :: ms => do
          guard (limit.takes (s.queue.map Prod.snd) m.2 = true)
          some { s with unsent := ms, queue := s.queue ++ [m] }
  | .complete => do
      guard (s.unsent = [])
      let service ← s.service.step .complete
      some { s with service := service }
  | .receive r => do
      guard (r ∈ s.called)
      guard ((calls r).waits (s.got r))
      let p ← take (fun x => ofType (calls r).seq x.2) s.queue
      some { s with
        queue := p.2
        got := Function.update s.got r (s.got r ++ [p.1.2]) }
  | .return r => do
      guard (s.returned r).isNone
      let ret ← ((calls r).receive (s.got r)).toOption
      some { s with returned := Function.update s.returned r (some ret) }

/-- The test says that the call waits for a message. -/
theorem LibCall.waits_iff (c : LibCall) (got : List ResponseMsg) :
    c.waits got = true ↔ c.receive got = .error .blocked := by
  rw [LibCall.waits]
  split
  · exact ⟨fun _ => by assumption, fun _ => rfl⟩
  · rename_i hother
    exact ⟨fun h => Bool.noConfusion h, fun h => absurd h hother⟩

/-- What is computed is a step. -/
theorem System.step_some {limit : QueueLimit} {calls : ι → LibCall} {s s' : System ι}
    {e : SystemEvent ι}
    (h : s.step limit calls e = some s') : SystemStep limit calls s e s' := by
  cases e with
  | call r =>
      obtain ⟨_, hnew, h⟩ := Option.bind_eq_some_iff.mp h
      cases h
      exact .call (of_guard hnew)
  | deliver env r =>
      obtain ⟨_, hcalled, h⟩ := Option.bind_eq_some_iff.mp h
      obtain ⟨service, hs, h⟩ := Option.bind_eq_some_iff.mp h
      cases h
      exact .deliver (of_guard hcalled) (Service.step_some hs)
  | fetch =>
      obtain ⟨service, hs, h⟩ := Option.bind_eq_some_iff.mp h
      cases h
      exact .fetch (Service.step_some hs)
  | skip =>
      obtain ⟨service, hs, h⟩ := Option.bind_eq_some_iff.mp h
      cases h
      exact .skip (Service.step_some hs)
  | execute env r =>
      obtain ⟨k, hw, h⟩ := Option.bind_eq_some_iff.mp h
      obtain ⟨slot, hs, h⟩ := Option.bind_eq_some_iff.mp h
      obtain ⟨_, hr, h⟩ := Option.bind_eq_some_iff.mp h
      obtain ⟨service, hstep, h⟩ := Option.bind_eq_some_iff.mp h
      obtain ⟨⟨files, resp⟩, hop, h⟩ := Option.bind_eq_some_iff.mp h
      cases h
      exact .execute (Worker.given_of_some hw) (toOption_some hs) (of_guard hr)
        (Service.step_some hstep) (toOption_some hop)
  | send =>
      rw [System.step] at h
      cases hm : s.unsent with
      | nil =>
          rw [hm] at h
          cases h
      | cons m ms =>
          rw [hm] at h
          obtain ⟨_, hroom, h⟩ := Option.bind_eq_some_iff.mp h
          cases h
          exact .send hm (of_guard hroom)
  | complete =>
      obtain ⟨_, hsent, h⟩ := Option.bind_eq_some_iff.mp h
      obtain ⟨service, hs, h⟩ := Option.bind_eq_some_iff.mp h
      cases h
      exact .complete (of_guard hsent) (Service.step_some hs)
  | receive r =>
      obtain ⟨_, hcalled, h⟩ := Option.bind_eq_some_iff.mp h
      obtain ⟨_, hwait, h⟩ := Option.bind_eq_some_iff.mp h
      obtain ⟨⟨⟨c, m⟩, queue⟩, hm, h⟩ := Option.bind_eq_some_iff.mp h
      cases h
      exact .receive (of_guard hcalled) (((calls r).waits_iff _).mp (of_guard hwait)) hm
  | «return» r =>
      obtain ⟨_, hopen, h⟩ := Option.bind_eq_some_iff.mp h
      obtain ⟨ret, hret, h⟩ := Option.bind_eq_some_iff.mp h
      cases h
      exact .return (Option.isNone_iff_eq_none.mp (of_guard hopen)) (toOption_some hret)

end Steps

end LibfsSpecs
