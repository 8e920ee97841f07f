import Libfs.IssuedNumbers
import Libfs.ReadResponses
import Libfs.Requests
import Libfs.Text

/-! # What `libfs_open` returns

    The response to an `OPEN` carries the four bytes of the descriptor, and
    `libfs_open` receives them all.  It returns the first one of them, as a
    signed `char`, where `libfs_create` reads an `fd_type` from the same
    buffer. -/

namespace LibfsBuffer

open LibfsHeap LibfsStdio LibfsCommon LibfsQueue LibfsText LibfsRequests

/-- The message `service_open` sends: four bytes of data, in one part. -/
def openMessage (seq : Int) (status : Status) (fd : Nat) : ResponseMsg where
  seq := seq
  status := status
  multipart := 0
  dataSize := 4
  dataOffset := 0
  partSize := 4
  data := unsignedField.write fd

/-! ## The library -/

/-- The value of a `char`, which is signed. -/
def charValue (b : UInt8) : Int := if b.toNat < 128 then b.toNat else (b.toNat : Int) - 256

/-- The loop of `libfs_open` that receives further parts.  It lets `msgrcv`
    write `MAX_MSG_SIZE` bytes behind the type, which is eight more than it
    allocated. -/
def receiveOpenParts (seq : Int) (respDataSize : Nat) :
    Nat → Status → Nat → Bytes → List ResponseMsg → C (Status × Bytes × List ResponseMsg)
  | n, status, copiedData, respBuf, queue =>
      if copiedData < respDataSize then
        match n with
        | 0 => .error .blocked
        | n + 1 => do
            let (furtherResp, queue) ← msgrcv queue maxMsgSize seq
            if furtherResp.length > maxMsgSize - 8 then .error .undefinedBehaviour
            else if furtherResp.multipart = 0 then .error .exitFailure
            else do
              let src ← slice furtherResp.bytes 0 furtherResp.partSize
              let respBuf ← poke respBuf furtherResp.dataOffset src
              receiveOpenParts seq respDataSize n furtherResp.status
                (u32 (copiedData + furtherResp.partSize)) respBuf queue
      else .ok (status, respBuf, queue)

/-- `libfs_errno` after a call that found it as `errno`. -/
def openErrno (errno : Int) (status : Status) : Int :=
  if status = .success then errno
  else if status = .fileNotFound ∨ status = .insufficientPerms ∨ status = .doubleWrite then
    status.code
  else Status.failure.code

/-- What `libfs_open` leaves when it returns: its value, `libfs_errno` and the
    queue. -/
structure Opened where
  fd : Nat
  errno : Int
  queue : List ResponseMsg

/-- `libfs_open` from its first `msgrcv` on. -/
def receiveOpen (env : Env) (queue : List ResponseMsg) (seq errno : Int) : C Opened := do
  let (resp, queue) ← msgrcv queue (maxMsgSize - 8) seq
  let src ← slice resp.bytes 0 resp.partSize
  let respBuf ← poke (env.malloc resp.dataSize) 0 src
  let (status, respBuf, queue) ←
    receiveOpenParts seq resp.dataSize queue.length resp.status resp.partSize respBuf queue
  if status = .success then
    match respBuf.head? with
    | none => .error .undefinedBehaviour
    | some b => .ok ⟨toUInt32 (charValue b), openErrno errno status, queue⟩
  else .ok ⟨toUInt32 (-1), openErrno errno status, queue⟩

end LibfsBuffer

namespace LibfsSpecs

open LibfsHeap LibfsStdio LibfsCommon LibfsInode LibfsOperations LibfsRun LibfsBuffer LibfsText
  LibfsWire LibfsRequests

/-- `(fd_type) -1`. -/
abbrev openFailed : Nat := 4294967295

/-- The descriptor a request works on. -/
def usedFd : Request → Option Nat
  | .read args => some args.fd
  | .write args => some args.fd
  | .seek args => some args.fd
  | .close args => some args.fd
  | _ => none

/-- A `READ`, `WRITE`, `SEEK` or `CLOSE` that the client sends for `v` is for
    the service a request on the descriptor `d`. -/
def NamesDescriptor (v d : Nat) : Prop :=
  ∀ env r, InRange r → usedFd r = some v →
    ∃ data r', payload env r = .ok data ∧ decode (requestType r) data = .ok r' ∧ usedFd r' = some d

/-- The call returns the descriptor `d`, which is not what a failed call
    returns, and the requests made with it go to `d`. -/
def ReceivesDescriptor (env : Env) (queue : List ResponseMsg) (seq errno : Int) (d : Nat) : Prop :=
  ∃ opened, receiveOpen env queue seq errno = .ok opened ∧
    opened.fd = d ∧ opened.fd ≠ openFailed ∧ NamesDescriptor opened.fd d

/-! ## The first byte -/

/-- What becomes of a descriptor on its way through a `char`. -/
def throughChar (d : Nat) : Nat := toUInt32 (charValue (UInt8.ofNat d))

theorem throughChar_eq (d : Nat) :
    throughChar d = if d % 256 < 128 then d % 256 else 4294967040 + d % 256 := by
  have hbyte : (UInt8.ofNat d).toNat = d % 256 := UInt8.toNat_ofNat'
  rw [throughChar, charValue, toUInt32, hbyte]
  split <;> omega

/-- The numbers whose last byte says all: its sign bit is repeated in the other
    three. -/
theorem throughChar_kept_iff {d : Nat} (hd : d < 4294967296) :
    throughChar d = d ∧ throughChar d ≠ openFailed ↔
      d < 128 ∨ 4294967168 ≤ d ∧ d < openFailed := by
  rw [throughChar_eq]
  simp only [openFailed]
  split <;> omega

/-! ## Receiving the message -/

section Receive

variable {queue ms : List ResponseMsg} {seq : Int} {d : Nat}

theorem openMessage_received (hq : queue.filter (ofType seq) = openMessage seq .success d :: ms)
    (env : Env) (errno : Int) :
    ∃ queue', receiveOpen env queue seq errno = .ok ⟨throughChar d, errno, queue'⟩ ∧
      queue'.filter (ofType seq) = ms := by
  obtain ⟨queue', hrcv, hown, -⟩ := msgrcv_next hq (by
    show 32 + 4 - 8 ≤ maxMsgSize - 8
    decide)
  have hlen : (openMessage seq .success d).data.length = 4 := unsignedField.write_length d
  have hslice : slice (openMessage seq .success d).bytes 0 4
      = .ok (openMessage seq .success d).data :=
    @slice_message (openMessage seq .success d) hlen (show 4 ≤ maxMsgDataSize by decide)
  have hpoke : poke (env.malloc 4) 0 (openMessage seq .success d).data
      = .ok (openMessage seq .success d).data := poke_malloc env hlen
  have hdone : ∀ buf, receiveOpenParts seq 4 queue'.length .success 4 buf queue'
      = .ok (.success, buf, queue') := by
    intro buf
    unfold receiveOpenParts
    exact if_neg (Nat.lt_irrefl 4)
  refine ⟨queue', ?_, hown⟩
  rw [receiveOpen, hrcv, ok_bind]
  show (slice (openMessage seq .success d).bytes 0 4 >>= _) = _
  rw [hslice, ok_bind]
  show (poke (env.malloc 4) 0 (openMessage seq .success d).data >>= _) = _
  rw [hpoke, ok_bind]
  show (receiveOpenParts seq 4 queue'.length .success 4 _ queue' >>= _) = _
  rw [hdone]
  rfl

/-- A value that is the descriptor is sent and read as the descriptor. -/
theorem namesDescriptor_self (d : Nat) : NamesDescriptor d d := by
  intro env r hrange hused
  obtain ⟨data, hdata, -, hdecode⟩ := request_survives env hrange
  exact ⟨data, r, hdata, hdecode, hused⟩

theorem receivesDescriptor_iff
    (hq : queue.filter (ofType seq) = openMessage seq .success d :: ms) (hd : d < 4294967296)
    (env : Env) (errno : Int) : ReceivesDescriptor env queue seq errno d ↔
      d < 128 ∨ 4294967168 ≤ d ∧ d < openFailed := by
  obtain ⟨queue', hrcv, -⟩ := openMessage_received hq env errno
  rw [← throughChar_kept_iff hd]
  constructor
  · rintro ⟨opened, hopened, hfd, hne, -⟩
    cases hrcv.symm.trans hopened
    exact ⟨hfd, hne⟩
  · rintro ⟨hfd, hne⟩
    refine ⟨_, hrcv, hfd, hne, ?_⟩
    show NamesDescriptor (throughChar d) d
    rw [hfd]
    exact namesDescriptor_self d

end Receive

/-! ## The descriptors of the service -/

theorem nextDesc_lt (t : Table Descriptor) : nextDesc t < 4294967296 := by
  rw [nextDesc]
  cases t.live.getLast? with
  | none => exact Nat.zero_lt_succ _
  | some p => exact u32_lt _

/-- A successful `OPEN` is answered with the number that it added to the end of
    the descriptor table. -/
theorem opened_descriptor {s s' : State} (hw : WellLinked s) {e : Event} (hs : Step s e s')
    {args : OpenArgs} (hreq : e.request = .open args) {d : Nat}
    (hresp : e.response = ⟨.success, .descriptor d⟩) :
    d = nextDesc s.descriptorTable ∧
      descNumbers s'.descriptorTable = descNumbers s.descriptorTable ++ [d] := by
  cases step_change hw hs with
  | refused hst =>
      rw [hresp] at hst
      exact absurd rfl hst
  | opened _ hissued _ _ _ _ _ hpush =>
      cases hresp.symm.trans hissued
      refine ⟨rfl, ?_⟩
      simp only [descNumbers, hpush.after, List.map_append, List.map_cons, List.map_nil]
  | created h | renamed h | linked h | symlinked h | closed h | wrote h | read h | sought h
  | unlinkedName h | unlinkedFile h =>
      rw [hreq] at h
      cases h
  | touched h =>
      rw [hreq] at h
      rcases h with ⟨_, h⟩ | ⟨_, h⟩
      · cases h
      · cases h

/-- An `OPEN` in any state the service reaches is answered with the number
    behind that of the last descriptor.  The client gets that number, and one it
    can tell from a failure, exactly when it is below 128 or among the last 128
    but for the very last. -/
theorem open_returns_descriptor_iff {es : List Event} {s s' : State} (hr : ServiceRun es s)
    {e : Event} (hs : Step s e s') {args : OpenArgs} (hreq : e.request = .open args) {d : Nat}
    (hresp : e.response = ⟨.success, .descriptor d⟩) {queue ms : List ResponseMsg} {seq : Int}
    (hq : queue.filter (ofType seq) = openMessage seq .success d :: ms) (env : Env) (errno : Int) :
    d = nextDesc s.descriptorTable ∧
      descNumbers s'.descriptorTable = descNumbers s.descriptorTable ++ [d] ∧
      (ReceivesDescriptor env queue seq errno d ↔ nextDesc s.descriptorTable < 128 ∨
        4294967168 ≤ nextDesc s.descriptorTable ∧ nextDesc s.descriptorTable < openFailed) := by
  obtain ⟨rfl, hlast⟩ := opened_descriptor (wellLinked_of_run hr) hs hreq hresp
  exact ⟨rfl, hlast, receivesDescriptor_iff hq (nextDesc_lt _) env errno⟩

/-- The first descriptor of all. -/
theorem open_returns_first :
    0 = nextDesc (replay [.create ⟨1, 1, 0o600, nameX⟩]).descriptorTable ∧
      descNumbers (replay [.create ⟨1, 1, 0o600, nameX⟩, .open ⟨1, 1, nameX, 0⟩]).descriptorTable
        = descNumbers (replay [.create ⟨1, 1, 0o600, nameX⟩]).descriptorTable ++ [0] ∧
      (ReceivesDescriptor stillEnv [openMessage 5 .success 0] 5 0 0 ↔
        nextDesc (replay [.create ⟨1, 1, 0o600, nameX⟩]).descriptorTable < 128 ∨
        4294967168 ≤ nextDesc (replay [.create ⟨1, 1, 0o600, nameX⟩]).descriptorTable ∧
          nextDesc (replay [.create ⟨1, 1, 0o600, nameX⟩]).descriptorTable < openFailed) := by
  have hret : returns ([.create ⟨1, 1, 0o600, nameX⟩] ++ [.open ⟨1, 1, nameX, 0⟩]) = true := by
    decide +kernel
  obtain ⟨hcreated, hstep⟩ := step_replay hret
  obtain ⟨es, hr⟩ := run_replay hcreated
  have hanswer : answer [.create ⟨1, 1, 0o600, nameX⟩] (.open ⟨1, 1, nameX, 0⟩)
      = ⟨.success, .descriptor 0⟩ := by decide +kernel
  have hq : [openMessage 5 .success 0].filter (ofType 5) = [openMessage 5 .success 0] := by
    decide +kernel
  exact open_returns_descriptor_iff hr hstep rfl hanswer hq stillEnv 0

/-- The descriptor 128 is issued by some run, and does not come back from
    `libfs_open`. -/
theorem descriptor_128_lost : ¬ ∀ (es : List Event) (s s' : State) (e : Event) (args : OpenArgs)
    (d : Nat) (queue ms : List ResponseMsg) (seq : Int) (env : Env) (errno : Int),
    ServiceRun es s → Step s e s' → e.request = .open args →
      e.response = ⟨.success, .descriptor d⟩ →
      queue.filter (ofType seq) = openMessage seq .success d :: ms →
      ReceivesDescriptor env queue seq errno d := by
  intro hclaim
  obtain ⟨es, s, s', hr, hs⟩ := every_number_issued (show 128 < 4294967296 by decide)
  have hq : [openMessage 5 .success 128].filter (ofType 5) = [openMessage 5 .success 128] := by
    decide +kernel
  have hreceived := hclaim es s s' (readerEvent 128) _ 128 _ [] 5 stillEnv 0 hr hs rfl rfl hq
  have hrange := (receivesDescriptor_iff hq (by decide) stillEnv 0).mp hreceived
  exact absurd hrange (by decide)

end LibfsSpecs
