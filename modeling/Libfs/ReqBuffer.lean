import Libfs.Common

/-! # The request buffer of `req_buffer.c`

    A ring of slots between the thread that receives messages and the thread
    that works on requests.  `handle_msg` and `get_service_req` are atomic: a
    semaphore with nothing to take, or a mutex that was left locked, stops
    the call with `blocked`.  The pointer a fetch returns is the number of
    its slot. -/

namespace LibfsBuffer

open LibfsHeap LibfsStdio LibfsCommon

/-- `enum Type`. -/
inductive RequestType where
  | create
  | chmode
  | rename
  | unlink
  | «open»
  | read
  | write
  | seek
  | close
  | stat
  | link
  | symlink
deriving DecidableEq, Repr

/-- `MAX_MSG_SIZE`. -/
abbrev maxMsgSize : Nat := 4096

/-- `MAX_MSG_DATA_SIZE`; `struct request_t` takes 32 bytes. -/
abbrev maxMsgDataSize : Nat := maxMsgSize - 32

/-- `struct request_t` with the bytes of its flexible array. -/
structure RequestMsg where
  seq : Int
  type : RequestType
  multipart : Nat
  dataSize : Nat
  dataOffset : Nat
  partSize : Nat
  data : Bytes
deriving DecidableEq

/-- The message as `receive` hands it on: its array, which begins 28 bytes
    into the zeroed buffer, reaches to the end of that. -/
def received (msg : RequestMsg) : RequestMsg := { msg with data := pad (maxMsgSize - 28) msg.data }

/-- `enum ReqStatus`. -/
inductive ReqStatus where
  | completed
  | inProgress
  | ready
deriving DecidableEq, Repr

/-- `struct service_req_t`; `none` is a null `data`. -/
structure ServiceReq where
  seq : Int
  type : RequestType
  reqStatus : ReqStatus
  dataSize : Nat
  dataOffset : Nat
  data : Option Bytes
deriving DecidableEq

/-- `struct req_buffer_t`; `lock` says whether the mutex is held between
    calls. -/
structure ReqBuffer where
  lock : Bool
  empty : Nat
  full : Nat
  wrIdx : Nat
  rdIdx : Nat
  size : Nat
  reqs : List ServiceReq
deriving DecidableEq

/-- A zeroed slot. -/
def zeroReq : ServiceReq := ⟨0, .create, .completed, 0, 0, none⟩

/-- `req_buffer_create`; `none` is the `-1` for a size of zero. -/
def reqBufferCreate (size : Nat) : Option ReqBuffer :=
  if size > 0 then some ⟨false, size, 0, 0, 0, size, List.replicate size zeroReq⟩ else none

/-- `sem_wait`. -/
def semWait : Nat → C Nat
  | 0 => .error .blocked
  | n + 1 => .ok n

/-- `pthread_mutex_lock`. -/
def mutexLock (held : Bool) : C Unit := if held then .error .blocked else .ok ()

/-- `rbuf->reqs[i]`. -/
def ReqBuffer.slot (rbuf : ReqBuffer) (i : Nat) : C ServiceReq :=
  match rbuf.reqs[i]? with
  | some req => .ok req
  | none => .error .undefinedBehaviour

/-- The two branches of `handle_msg` that take a free slot: a single message
    and a first part. -/
def enqueue (rbuf : ReqBuffer) (newReq : C ServiceReq) : C ReqBuffer := do
  let empty ← semWait rbuf.empty
  let _ ← mutexLock rbuf.lock
  let newReq ← newReq
  let _ ← rbuf.slot rbuf.wrIdx
  .ok { rbuf with
    empty := empty
    reqs := rbuf.reqs.set rbuf.wrIdx newReq
    wrIdx := (rbuf.wrIdx + 1) % rbuf.size }

/-- The search of `handle_msg` for the request a further part belongs to,
    over `n` slots from `i` on. -/
def findSeq (rbuf : ReqBuffer) (seq : Int) : Nat → Nat → C (Option Nat)
  | 0, _ => .ok none
  | n + 1, i => do
      let req ← rbuf.slot i
      if req.seq = seq then .ok (some i) else findSeq rbuf seq n (i + 1)

/-- `handle_msg`.  The number is what it returns; corrupted data leaves the
    mutex locked. -/
def handleMsg (env : Env) (rbuf : ReqBuffer) (msg : RequestMsg) : C (Int × ReqBuffer) :=
  if msg.multipart = 0 then do
    let rbuf ← enqueue rbuf do
      let src ← slice msg.data 0 msg.dataSize
      let data ← poke (env.malloc msg.dataSize) 0 src
      .ok ⟨msg.seq, msg.type, .ready, msg.dataSize, 0, some data⟩
    .ok (0, { rbuf with full := rbuf.full + 1 })
  else if msg.dataOffset = 0 then do
    let rbuf ← enqueue rbuf do
      let src ← slice msg.data 0 msg.partSize
      let data ← poke (env.malloc msg.dataSize) msg.dataOffset src
      .ok ⟨msg.seq, msg.type, .inProgress, msg.dataSize, msg.partSize, some data⟩
    .ok (0, rbuf)
  else do
    match ← findSeq rbuf msg.seq (rbuf.wrIdx - rbuf.rdIdx) rbuf.rdIdx with
    | none => .ok (-1, rbuf)
    | some i => do
        let _ ← mutexLock rbuf.lock
        let req ← rbuf.slot i
        match req.data with
        | none => .error .undefinedBehaviour
        | some data => do
            let src ← slice msg.data 0 msg.partSize
            let data ← poke data msg.dataOffset src
            let req := { req with
              data := some data
              dataOffset := u32 (req.dataOffset + msg.partSize) }
            if req.dataOffset = req.dataSize then
              .ok (0, { rbuf with
                reqs := rbuf.reqs.set i { req with reqStatus := .ready }
                full := rbuf.full + 1 })
            else if req.dataOffset > req.dataSize then
              .ok (-3, { rbuf with reqs := rbuf.reqs.set i req, lock := true })
            else .ok (0, { rbuf with reqs := rbuf.reqs.set i req })

/-- `get_service_req`. -/
def getServiceReq (rbuf : ReqBuffer) : C (Nat × ReqBuffer) := do
  let full ← semWait rbuf.full
  let _ ← mutexLock rbuf.lock
  .ok (rbuf.rdIdx, { rbuf with
    full := full
    rdIdx := (rbuf.rdIdx + 1) % rbuf.size
    empty := rbuf.empty + 1 })

/-- The end of a round of `operate`, on the slot it was given. -/
def completeReq (rbuf : ReqBuffer) (k : Nat) : C ReqBuffer := do
  let req ← rbuf.slot k
  .ok { rbuf with reqs := rbuf.reqs.set k { req with
    data := none
    dataOffset := 0
    dataSize := 0
    reqStatus := .completed } }

/-! ## The messages of one request -/

/-- What a function of `libfs.c` sends: the kind of request, its sequence
    number and the arguments, laid out in a buffer whose size is an
    `unsigned`. -/
structure ClientReq where
  type : RequestType
  seq : Int
  payload : Bytes
  short : payload.length < 4294967296

/-- `num_of_parts`. -/
def numOfParts (dataSize : Nat) : Nat :=
  let n := dataSize / maxMsgDataSize + if dataSize % maxMsgDataSize ≠ 0 then 1 else 0
  if n = 0 then 1 else n

/-- The message the loop builds in round `i`. -/
def requestPart (req : ClientReq) (i dataToCopy : Nat) : RequestMsg :=
  let parts := numOfParts req.payload.length
  let partDataSize := if dataToCopy > maxMsgDataSize then maxMsgDataSize else dataToCopy
  let dataOffset := if i ≠ 0 then u32 (i * maxMsgDataSize) else 0
  { seq := req.seq
    type := req.type
    multipart := if parts = 1 then 0 else parts
    dataSize := req.payload.length
    dataOffset := dataOffset
    partSize := partDataSize
    data := (req.payload.drop dataOffset).take partDataSize }

/-- The loop that sends a request, `n` rounds from round `i` on. -/
def sendParts (req : ClientReq) : Nat → Nat → Nat → List RequestMsg
  | 0, _, _ => []
  | n + 1, i, dataToCopy =>
      requestPart req i dataToCopy :: sendParts req n (i + 1)
        (dataToCopy - if dataToCopy > maxMsgDataSize then maxMsgDataSize else dataToCopy)

/-- All messages of a request. -/
def requestMessages (req : ClientReq) : List RequestMsg :=
  sendParts req (numOfParts req.payload.length) 0 req.payload.length

end LibfsBuffer
