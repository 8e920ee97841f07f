import Libfs.OpenResponses

/-! # What the calls of the library return

    A handler ends with the messages of its response, and a function of
    `libfs.c` ends with receiving them.  The twelve of them do it in four ways:
    most collect the parts as `libfs_open` does, `libfs_read` has a loop of its
    own, three take one message, and two take one message without a look at
    whether they got it.  Whatever a handler answers, the call returns. -/

namespace LibfsBuffer

open LibfsHeap LibfsStdio LibfsCommon LibfsQueue LibfsOperations LibfsWire LibfsRequests

/-! ## The service -/

/-- `struct timespec`. -/
def timespecField : Format Timespec :=
  (longField.both longField).fields (fun t => (t.tvSec, t.tvNsec)) (fun p => ⟨p.1, p.2⟩)
    fun _ => rfl

/-- `struct stat_t`. -/
def statField : Format Stat :=
  (longField.both (timespecField.both (timespecField.both timespecField))).fields
    (fun v => (v.stSize, v.stAtim, v.stMtim, v.stCtim)) (fun p => ⟨p.1, p.2.1, p.2.2.1, p.2.2.2⟩)
    fun _ => rfl

/-- The message of a handler that sends no data. -/
def emptyMessage (seq : Int) (status : Status) : ResponseMsg := ⟨seq, status, 0, 0, 0, 0, []⟩

/-- `node_index` in `service_create` and `fd` in `service_open`. -/
def payloadFd : Payload → Nat
  | .descriptor fd => fd
  | _ => 0

/-- The part of `copy_buf` that `service_stat` sends.  What it did not fill is
    what was on the stack. -/
def statCopyBuf (env : Env) : Payload → Bytes
  | .fileStat (some stat) => statField.write stat
  | .fileStat none => env.malloc 56
  | _ => []

/-- The part of `copy_buf` that `service_read` sends. -/
def readCopyBuf : Payload → Bytes
  | .bytes data => data
  | _ => []

/-- The messages a handler sends once it knows its response. -/
def answerMessages (env : Env) (seq : Int) (resp : Response) : RequestType → List ResponseMsg
  | .create => responseMessages seq resp.status (unsignedField.write (payloadFd resp.payload))
  | .stat => responseMessages seq resp.status (statCopyBuf env resp.payload)
  | .open => [openMessage seq resp.status (payloadFd resp.payload)]
  | .read => responseMessages seq resp.status (readCopyBuf resp.payload)
  | .chmode | .rename | .unlink | .write | .seek | .close | .link | .symlink =>
      [emptyMessage seq resp.status]

/-! ## The library -/

/-- What a call leaves when it returns: its value, `libfs_errno`, the buffer it
    was given and the queue. -/
structure Returned where
  value : Int
  errno : Int
  buf : Bytes
  queue : List ResponseMsg

/-- `libfs_errno` after a call that found it as `errno` and tells the failures
    in `named` from the others. -/
def errnoAfter (named : List Status) (errno : Int) (status : Status) : Int :=
  if status = .success then errno
  else if status ∈ named then status.code
  else Status.failure.code

/-- The response as most calls collect it, with the loop of `libfs_open`. -/
def receiveWhole (env : Env) (queue : List ResponseMsg) (seq : Int) :
    C (Status × Bytes × List ResponseMsg) := do
  let (resp, queue) ← msgrcv queue (maxMsgSize - 8) seq
  let src ← slice resp.bytes 0 resp.partSize
  let respBuf ← poke (env.malloc resp.dataSize) 0 src
  receiveOpenParts seq resp.dataSize queue.length resp.status resp.partSize respBuf queue

/-- The response of a call that takes one message for all of it. -/
def receiveOne (queue : List ResponseMsg) (seq : Int) : C (Status × List ResponseMsg) := do
  let (resp, queue) ← msgrcv queue (maxMsgSize - 8) seq
  .ok (resp.status, queue)

/-- The response of a call that receives into a `struct response_t` and goes on
    whatever `msgrcv` returns.  A message that does not fit stays in the queue,
    and the status is the one that stood in the structure. -/
def receiveUnchecked (stood : C Status) (queue : List ResponseMsg) (seq : Int) :
    C (Status × List ResponseMsg) :=
  match take (ofType seq) queue with
  | none => .error .blocked
  | some (resp, rest) =>
      if resp.length > 32 - 8 then do
        let status ← stood
        .ok (status, queue)
      else .ok (resp.status, rest)

section Calls

variable (env : Env) (queue : List ResponseMsg) (seq errno : Int) (buf : Bytes)

/-- `libfs_create` reads its value from the data of the response, whatever the
    status is. -/
def receiveCreate : C Returned := do
  let (status, respBuf, queue) ← receiveWhole env queue seq
  let newDesc ← unsignedField.read respBuf 0
  .ok ⟨newDesc, errnoAfter [.filenameTaken] errno status, buf, queue⟩

/-- `libfs_rename` clears the structure it receives into. -/
def receiveRename : C Returned := do
  let (status, queue) ← receiveUnchecked (.ok .success) queue seq
  .ok ⟨status.code, errnoAfter [.filenameTaken] errno status, buf, queue⟩

/-- `libfs_chmode` does not clear it. -/
def receiveChmode : C Returned := do
  let (status, queue) ← receiveUnchecked (.error .undefinedBehaviour) queue seq
  .ok ⟨status.code, errnoAfter [.fileNotFound] errno status, buf, queue⟩

/-- `libfs_stat` fills the caller's `struct stat_t` when it succeeded. -/
def receiveStat : C Returned := do
  let (status, respBuf, queue) ← receiveWhole env queue seq
  if status = .success then do
    let src ← slice respBuf 0 56
    let buf ← poke buf 0 src
    .ok ⟨status.code, errnoAfter [.fileNotFound] errno status, buf, queue⟩
  else .ok ⟨status.code, errnoAfter [.fileNotFound] errno status, buf, queue⟩

/-- `libfs_link` and `libfs_symlink`. -/
def receiveLink : C Returned := do
  let (status, _, queue) ← receiveWhole env queue seq
  .ok ⟨status.code, errnoAfter [.filenameTaken, .fileNotFound] errno status, buf, queue⟩

/-- `libfs_open`. -/
def receiveOpened : C Returned := do
  let opened ← receiveOpen env queue seq errno
  .ok ⟨opened.fd, opened.errno, buf, opened.queue⟩

/-- `libfs_close`. -/
def receiveClose : C Returned := do
  let (status, _, queue) ← receiveWhole env queue seq
  .ok ⟨if status = .success then 0 else -1, errnoAfter [.fileNotFound] errno status, buf, queue⟩

/-- `libfs_write`. -/
def receiveWrite : C Returned := do
  let (status, queue) ← receiveOne queue seq
  .ok ⟨if status = .success then 0 else -1, errnoAfter [.fileNotFound] errno status, buf, queue⟩

/-- `libfs_read`. -/
def receiveRead : C Returned := do
  let received ← receiveResponse env queue seq buf
  .ok ⟨received.status.code, errnoAfter [.fileNotFound] errno received.status, received.buf,
    received.queue⟩

/-- `libfs_seek` and `libfs_unlink`. -/
def receiveSeek : C Returned := do
  let (status, queue) ← receiveOne queue seq
  .ok ⟨status.code, errnoAfter [.fileNotFound] errno status, buf, queue⟩

/-- The call that sent a request of this type, from its first `msgrcv` on. -/
def receiveCall : RequestType → C Returned
  | .create => receiveCreate env queue seq errno buf
  | .chmode => receiveChmode queue seq errno buf
  | .rename => receiveRename queue seq errno buf
  | .unlink => receiveSeek queue seq errno buf
  | .open => receiveOpened env queue seq errno buf
  | .read => receiveRead env queue seq errno buf
  | .write => receiveWrite queue seq errno buf
  | .seek => receiveSeek queue seq errno buf
  | .close => receiveClose env queue seq errno buf
  | .stat => receiveStat env queue seq errno buf
  | .link => receiveLink env queue seq errno buf
  | .symlink => receiveLink env queue seq errno buf

end Calls

end LibfsBuffer

namespace LibfsSpecs

open LibfsHeap LibfsStdio LibfsCommon LibfsInode LibfsOperations LibfsRun LibfsBuffer LibfsQueue
  LibfsText LibfsWire LibfsRequests

/-! ## What they return -/

/-- The value of a call that was answered with `resp`. -/
def returnValue (resp : Response) : RequestType → Int
  | .create => u32 (payloadFd resp.payload)
  | .open => if resp.status = .success then throughChar (payloadFd resp.payload) else openFailed
  | .write | .close => if resp.status = .success then 0 else -1
  | .chmode | .rename | .unlink | .read | .seek | .stat | .link | .symlink => resp.status.code

/-- The failures a call tells apart. -/
def namedErrors : RequestType → List Status
  | .create | .rename => [.filenameTaken]
  | .link | .symlink => [.filenameTaken, .fileNotFound]
  | .open => [.fileNotFound, .insufficientPerms, .doubleWrite]
  | .chmode | .unlink | .read | .write | .seek | .close | .stat => [.fileNotFound]

/-- What the call copies into the caller's buffer. -/
def returnData (resp : Response) : RequestType → Bytes
  | .read => if resp.status = .success then readCopyBuf resp.payload else []
  | .stat =>
      match resp with
      | ⟨.success, .fileStat (some stat)⟩ => statField.write stat
      | _ => []
  | _ => []

/-- A call that was answered with `resp`. -/
def returned (resp : Response) (type : RequestType) (errno : Int) (buf : Bytes)
    (queue : List ResponseMsg) : Returned where
  value := returnValue resp type
  errno := errnoAfter (namedErrors type) errno resp.status
  buf := returnData resp type ++ buf.drop (returnData resp type).length
  queue := queue

/-- The bytes the caller's buffer has to hold. -/
def roomFor : Request → Nat
  | .read args => args.size
  | .stat _ => 56
  | _ => 0

/-! ## What the handlers answer -/

/-- A `STAT` that succeeds sends a file's attributes, and a `READ` as many bytes
    as it was asked for, or none. -/
def FitsRequest (resp : Response) : Request → Prop
  | .stat _ => resp.status = .success → ∃ stat, resp.payload = .fileStat (some stat)
  | .read args => (readCopyBuf resp.payload).length ≤ args.size
  | _ => True

/-- A lookup that succeeds has the attributes. -/
theorem getFileStat_filled {s s' : State} {env : Env} {name : Filename} {stat : Option Stat}
    (h : getFileStatFromInode s env name = .ok (.success, stat, s')) : ∃ v, stat = some v := by
  obtain ⟨⟨found, nodeIndex⟩, -, h⟩ := bind_ok_iff.mp h
  simp only [if_neg found.code_ne_neg_one] at h
  obtain ⟨p, -, h⟩ := bind_ok_iff.mp h
  cases p with
  | none => cases h
  | some a =>
      obtain ⟨inode, -, h⟩ := bind_ok_iff.mp h
      obtain ⟨_, -, h⟩ := bind_ok_iff.mp h
      cases h
      exact ⟨inode.stat, rfl⟩

/-- A read fills a part of the buffer and leaves its length. -/
theorem readInodeFd_length {s s' : State} {env : Env} {fd size : Nat} {buf buf' : Bytes}
    {st : Status} (h : readInodeFd s env fd buf size = .ok (st, buf', s')) :
    buf'.length = buf.length := by
  obtain ⟨q, -, h⟩ := bind_ok_iff.mp h
  cases q with
  | none =>
      cases h
      rfl
  | some d =>
      obtain ⟨desc, -, h⟩ := bind_ok_iff.mp h
      obtain ⟨p, -, h⟩ := bind_ok_iff.mp h
      cases p with
      | none =>
          cases h
          rfl
      | some a =>
          obtain ⟨inode, -, h⟩ := bind_ok_iff.mp h
          obtain ⟨t, -, h⟩ := bind_ok_iff.mp h
          obtain ⟨⟨st', offset, read⟩, hread, h⟩ := bind_ok_iff.mp h
          obtain ⟨td, -, h⟩ := bind_ok_iff.mp h
          cases h
          exact readInode_length hread

/-- What a handler answers fits the request. -/
theorem handle_fits {s s' : State} {env : Env} {r : Request} {resp : Response}
    (h : handle s env r = .ok (s', resp)) : FitsRequest resp r := by
  cases r with
  | stat args =>
      intro hst
      obtain ⟨⟨found, file⟩, -, h⟩ := bind_ok_iff.mp h
      by_cases hchecked : checkedStatus (lookupStatus found)
          (readDenied args.fileOwner args.fileGroup file) = .success
      · simp only [if_pos hchecked] at h
        obtain ⟨⟨st, stat, s₁⟩, hstat, h⟩ := bind_ok_iff.mp h
        cases h
        obtain rfl : st = .success := hst
        obtain ⟨v, rfl⟩ := getFileStat_filled hstat
        exact ⟨v, rfl⟩
      · simp only [if_neg hchecked] at h
        cases h
        exact absurd hst hchecked
  | read args =>
      obtain ⟨⟨st, buf, s₁⟩, hread, h⟩ := bind_ok_iff.mp h
      cases h
      have hlen := readInodeFd_length hread
      rw [Env.malloc_length] at hlen
      show (if st = .success then buf else []).length ≤ args.size
      by_cases hst : st = .success
      · rw [if_pos hst]
        exact hlen.le
      · rw [if_neg hst]
        exact Nat.zero_le _
  | _ => trivial

end LibfsSpecs
