import Libfs.BufferSpecs
import Libfs.MsgQueue

/-! # Responses

    The loop with which a handler sends its response, and the loop with which
    a function of the library receives it.  Between them lies a queue that
    other calls use too: `msgrcv` takes the first message whose type is the
    sequence number of the call. -/

namespace LibfsBuffer

open LibfsHeap LibfsStdio LibfsCommon LibfsQueue

/-- `struct response_t` with the bytes of its flexible array. -/
structure ResponseMsg where
  seq : Int
  status : Status
  multipart : Nat
  dataSize : Nat
  dataOffset : Nat
  partSize : Nat
  data : Bytes
deriving DecidableEq

/-- The length `msgsnd` is given: `sizeof(*msg) + part_size - sizeof(long)`. -/
def ResponseMsg.length (msg : ResponseMsg) : Nat := 32 + msg.partSize - 8

/-- The number of bytes a round sends when `dataToCopy` are left. -/
def partDataSize (dataToCopy : Nat) : Nat :=
  if dataToCopy > maxMsgDataSize then maxMsgDataSize else dataToCopy

/-- The message the loop builds in round `i`. -/
def responsePart (seq : Int) (status : Status) (copyBuf : Bytes) (i dataToCopy : Nat) :
    ResponseMsg :=
  let parts := numOfParts copyBuf.length
  let dataOffset := if i ≠ 0 then u32 (i * maxMsgDataSize) else 0
  { seq := seq
    status := status
    multipart := if parts = 1 then 0 else parts
    dataSize := copyBuf.length
    dataOffset := dataOffset
    partSize := partDataSize dataToCopy
    data := (copyBuf.drop dataOffset).take (partDataSize dataToCopy) }

/-- The loop that sends a response, `n` rounds from round `i` on: for each
    round what is left to copy before it, and the message. -/
def responseRounds (seq : Int) (status : Status) (copyBuf : Bytes) :
    Nat → Nat → Nat → List (Nat × ResponseMsg)
  | 0, _, _ => []
  | n + 1, i, dataToCopy =>
      (dataToCopy, responsePart seq status copyBuf i dataToCopy) ::
        responseRounds seq status copyBuf n (i + 1) (dataToCopy - partDataSize dataToCopy)

/-- All messages of a response. -/
def responseMessages (seq : Int) (status : Status) (copyBuf : Bytes) : List ResponseMsg :=
  (responseRounds seq status copyBuf (numOfParts copyBuf.length) 0 copyBuf.length).map Prod.snd

/-! ## The library -/

/-- The messages `msgrcv` looks for: those of the type, or all if it is zero. -/
def ofType (typ : Int) (msg : ResponseMsg) : Bool := typ = 0 || msg.seq = typ

/-- `msgrcv`, and the check of its result: a message that is longer than
    `msgsz` makes the caller exit. -/
def msgrcv (queue : List ResponseMsg) (msgsz : Nat) (typ : Int) :
    C (ResponseMsg × List ResponseMsg) :=
  match take (ofType typ) queue with
  | none => .error .blocked
  | some (msg, queue) => if msg.length > msgsz then .error .exitFailure else .ok (msg, queue)

/-- The bytes of a message as they stand in the zeroed buffer it is received
    into, from the beginning of its array on. -/
def ResponseMsg.bytes (msg : ResponseMsg) : Bytes := pad (maxMsgSize - 28) msg.data

/-- The loop of `libfs_read` that receives further parts.  Each round takes a
    message, so the number of messages is budget enough.  `parts` counts the
    messages that were received. -/
def receiveParts (seq : Int) (respDataSize : Nat) :
    Nat → Nat → Status → Nat → Bytes → List ResponseMsg →
      C (Nat × Status × Bytes × List ResponseMsg)
  | n, parts, status, copiedData, respBuf, queue =>
      if copiedData < respDataSize then
        match n with
        | 0 => .error .blocked
        | n + 1 => do
            let (furtherResp, queue) ← msgrcv queue (maxMsgSize - 8) seq
            if furtherResp.multipart = 0 then .error .exitFailure
            else do
              let src ← slice furtherResp.bytes 0 furtherResp.partSize
              let respBuf ← poke respBuf furtherResp.dataOffset src
              receiveParts seq respDataSize n (parts + 1) furtherResp.status
                (u32 (copiedData + furtherResp.partSize)) respBuf queue
      else .ok (parts, status, respBuf, queue)

/-- What `libfs_read` has when it returns: the number of messages it took, its
    status, the caller's buffer and the queue. -/
structure Received where
  parts : Nat
  status : Status
  buf : Bytes
  queue : List ResponseMsg

/-- `libfs_read` from its first `msgrcv` on. -/
def receiveResponse (env : Env) (queue : List ResponseMsg) (seq : Int) (buf : Bytes) :
    C Received := do
  let (resp, queue) ← msgrcv queue (maxMsgSize - 8) seq
  let src ← slice resp.bytes 0 resp.partSize
  let respBuf ← poke (env.malloc resp.dataSize) 0 src
  let (parts, status, respBuf, queue) ←
    receiveParts seq resp.dataSize queue.length 1 resp.status resp.partSize respBuf queue
  if status = .success then do
    let src ← slice respBuf 0 resp.dataSize
    let buf ← poke buf 0 src
    .ok ⟨parts, status, buf, queue⟩
  else .ok ⟨parts, status, buf, queue⟩

end LibfsBuffer
