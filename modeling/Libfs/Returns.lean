import Libfs.Answers

/-! # A call returns what was answered

    All answers but a read's are one message, and a read's come in order, so
    that each way of receiving ends with the status and the data that were
    sent, takes the messages of its own call and leaves those of the others. -/

namespace LibfsSpecs

open LibfsHeap LibfsStdio LibfsCommon LibfsInode LibfsOperations LibfsRun LibfsBuffer LibfsQueue
  LibfsText LibfsWire LibfsRequests

/-! ## Answers of one message -/

/-- A response that is sent as one message. -/
def wholeMessage (seq : Int) (status : Status) (d : Bytes) : ResponseMsg :=
  ⟨seq, status, 0, d.length, 0, d.length, d⟩

/-- The queue a call leaves that has taken all messages of its own. -/
structure Drained (seq : Int) (queue queue' : List ResponseMsg) : Prop where
  own : queue'.filter (ofType seq) = []
  others : ∀ other, (∀ x, ofType seq x = true → other x = false) →
    queue'.filter other = queue.filter other

/-- Nothing is left of a queue that held messages of the call only. -/
theorem Drained.eq_nil {seq : Int} {queue queue' : List ResponseMsg}
    (h : Drained seq queue queue') (hall : queue.filter (ofType seq) = queue) : queue' = [] := by
  have hothers := h.others (fun m => !ofType seq m) fun m hm => by rw [hm]; rfl
  refine List.eq_nil_iff_forall_not_mem.mpr fun m hm => ?_
  by_cases htype : ofType seq m = true
  · exact List.filter_eq_nil_iff.mp h.own m hm htype
  · have hkept : m ∈ queue.filter fun m => !ofType seq m := by
      rw [← hothers]
      refine List.mem_filter.mpr ⟨hm, ?_⟩
      rw [Bool.not_eq_true] at htype
      rw [htype]
      rfl
    exact htype (List.filter_eq_self.mp hall m (List.mem_filter.mp hkept).1)

/-- Short data are sent at once. -/
theorem numOfParts_short {n : Nat} (h : n ≤ maxMsgDataSize) : numOfParts n = 1 := by
  rw [numOfParts]
  rcases Nat.lt_or_eq_of_le h with hlt | heq
  · rw [Nat.div_eq_of_lt hlt, Nat.mod_eq_of_lt hlt, Nat.zero_add]
    by_cases hzero : n = 0
    · rw [if_neg (not_not.mpr hzero), if_pos rfl]
    · rw [if_pos hzero, if_neg Nat.one_ne_zero]
  · rw [heq]
    rfl

/-- A short response is one message. -/
theorem responseMessages_short (seq : Int) (status : Status) {d : Bytes}
    (hd : d.length ≤ maxMsgDataSize) :
    responseMessages seq status d = [wholeMessage seq status d] := by
  have hparts := numOfParts_short hd
  have hpart : partDataSize d.length = d.length := if_neg (Nat.not_lt.mpr hd)
  rw [responseMessages, hparts, responseRounds, responseRounds, List.map_cons, List.map_nil,
    responsePart]
  dsimp only
  rw [hparts, if_pos rfl, hpart, if_neg (not_not.mpr rfl), List.drop_zero, List.take_length]
  rfl

section Whole

variable {seq : Int} {status : Status} {d : Bytes} {queue : List ResponseMsg}

/-- The message is taken, and the others stay. -/
theorem msgrcv_whole (hd : d.length ≤ maxMsgDataSize)
    (hq : queue.filter (ofType seq) = [wholeMessage seq status d]) :
    ∃ queue', msgrcv queue (maxMsgSize - 8) seq = .ok (wholeMessage seq status d, queue') ∧
      Drained seq queue queue' := by
  obtain ⟨queue', hrcv, hown, hothers⟩ := msgrcv_next hq (by
    show 32 + d.length - 8 ≤ _
    simp only [maxMsgDataSize, maxMsgSize] at hd ⊢
    omega)
  exact ⟨queue', hrcv, hown, hothers⟩

/-- A call that takes one message for all has the status. -/
theorem receiveOne_whole (hd : d.length ≤ maxMsgDataSize)
    (hq : queue.filter (ofType seq) = [wholeMessage seq status d]) :
    ∃ queue', receiveOne queue seq = .ok (status, queue') ∧ Drained seq queue queue' := by
  obtain ⟨queue', hrcv, hdrained⟩ := msgrcv_whole hd hq
  refine ⟨queue', ?_, hdrained⟩
  rw [receiveOne, hrcv, ok_bind]
  rfl

/-- Nothing is left to copy behind the first message. -/
theorem receiveWhole_whole (env : Env) (hd : d.length ≤ maxMsgDataSize)
    (hq : queue.filter (ofType seq) = [wholeMessage seq status d]) :
    ∃ queue', receiveWhole env queue seq = .ok (status, d, queue') ∧ Drained seq queue queue' := by
  obtain ⟨queue', hrcv, hdrained⟩ := msgrcv_whole hd hq
  have hslice : slice (wholeMessage seq status d).bytes 0 d.length = .ok d :=
    @slice_message (wholeMessage seq status d) rfl hd
  refine ⟨queue', ?_, hdrained⟩
  rw [receiveWhole, hrcv, ok_bind]
  show (slice (wholeMessage seq status d).bytes 0 d.length >>= _) = _
  rw [hslice, ok_bind]
  show (poke (env.malloc d.length) 0 d >>= _) = _
  rw [poke_malloc env rfl, ok_bind]
  show receiveOpenParts seq d.length queue'.length status d.length d queue' = _
  unfold receiveOpenParts
  exact if_neg (Nat.lt_irrefl _)

/-- A message without data fits the structure. -/
theorem receiveUnchecked_whole (stood : C Status)
    (hq : queue.filter (ofType seq) = [wholeMessage seq status []]) :
    ∃ queue', receiveUnchecked stood queue seq = .ok (status, queue') ∧
      Drained seq queue queue' := by
  obtain ⟨queue', htake, hown, hothers⟩ := take_of_filter queue hq
  refine ⟨queue', ?_, hown, hothers⟩
  rw [receiveUnchecked, htake]
  exact if_neg (show ¬ 32 + 0 - 8 > 32 - 8 by decide)

end Whole

/-! ## A call returns what was answered -/

section Returns

variable {seq : Int} {resp : Response} {queue : List ResponseMsg}

/-- The data of a response that is not a read's. -/
def answerData (env : Env) (resp : Response) : RequestType → Bytes
  | .create | .open => unsignedField.write (payloadFd resp.payload)
  | .stat => statCopyBuf env resp.payload
  | _ => []

/-- A `struct stat_t` has 56 bytes. -/
theorem statField_length (v : Stat) : (statField.write v).length = 56 := statField.write_length v

/-- A response to a `STAT` carries no more. -/
theorem statCopyBuf_length (env : Env) (p : Payload) : (statCopyBuf env p).length ≤ 56 := by
  cases p with
  | fileStat stat =>
      cases stat with
      | none => exact (Env.malloc_length env 56).le
      | some v => exact (statField_length v).le
  | _ => exact Nat.zero_le _

/-- A number fits a message. -/
theorem unsignedField_short (n : Nat) : (unsignedField.write n).length ≤ maxMsgDataSize := by
  rw [unsignedField.write_length, unsignedFormat_size]
  decide

/-- All but `READ` answer with one message. -/
theorem answerData_short (env : Env) (resp : Response) (type : RequestType) :
    (answerData env resp type).length ≤ maxMsgDataSize := by
  cases type with
  | create => exact unsignedField_short _
  | «open» => exact unsignedField_short _
  | stat => exact (statCopyBuf_length env resp.payload).trans (by decide)
  | _ => exact Nat.zero_le _

/-- All answers but a read's are one message. -/
theorem answerMessages_whole (env : Env) (seq : Int) (resp : Response) {type : RequestType}
    (htype : type ≠ .read) :
    answerMessages env seq resp type
      = [wholeMessage seq resp.status (answerData env resp type)] := by
  cases type with
  | read => exact absurd rfl htype
  | create => exact responseMessages_short seq resp.status (answerData_short env resp .create)
  | stat => exact responseMessages_short seq resp.status (answerData_short env resp .stat)
  | _ => rfl

/-- `libfs_open` tells three failures from the others. -/
theorem openErrno_eq (errno : Int) (status : Status) :
    openErrno errno status = errnoAfter (namedErrors .open) errno status := by
  cases status <;> rfl

/-- The four bytes of a number, read where they were put. -/
theorem unsignedField_read (n : Nat) :
    unsignedField.read (unsignedField.write n) 0 = .ok (u32 n) := by
  show (slice (lowBytes 4 n) 0 4 >>= _) = _
  have hall := (Stands.start (lowBytes 4 n ++ [])).slice
  rw [List.append_nil, lowBytes_length] at hall
  rw [hall, ok_bind, valueOf_lowBytes]
  rfl

/-- `libfs_open` returns the first byte of its response. -/
theorem receiveOpen_whole (env : Env) {fd : Nat} {status : Status}
    (hq : queue.filter (ofType seq) = [openMessage seq status fd]) (errno : Int) :
    ∃ queue', receiveOpen env queue seq errno
        = .ok ⟨if status = .success then throughChar fd else openFailed,
            errnoAfter (namedErrors .open) errno status, queue'⟩ ∧ Drained seq queue queue' := by
  obtain ⟨queue', hrcv, hdrained⟩ := msgrcv_whole (unsignedField_short fd) hq
  have hslice : slice (openMessage seq status fd).bytes 0 4 = .ok (unsignedField.write fd) :=
    @slice_message (openMessage seq status fd) rfl (show 4 ≤ maxMsgDataSize by decide)
  have hpoke : poke (env.malloc 4) 0 (unsignedField.write fd) = .ok (unsignedField.write fd) :=
    poke_malloc env rfl
  have hdone : receiveOpenParts seq 4 queue'.length status 4 (unsignedField.write fd) queue'
      = .ok (status, unsignedField.write fd, queue') := by
    unfold receiveOpenParts
    exact if_neg (Nat.lt_irrefl 4)
  refine ⟨queue', ?_, hdrained⟩
  rw [receiveOpen, hrcv, ok_bind]
  show (slice (openMessage seq status fd).bytes 0 4 >>= _) = _
  rw [hslice, ok_bind]
  show (poke (env.malloc 4) 0 (unsignedField.write fd) >>= _) = _
  rw [hpoke, ok_bind]
  show (receiveOpenParts seq 4 queue'.length status 4 (unsignedField.write fd) queue' >>= _) = _
  rw [hdone, ok_bind, ← openErrno_eq]
  by_cases hst : status = .success
  · simp only [if_pos hst]
    rfl
  · simp only [if_neg hst]
    rfl

/-- A buffer is read to its end. -/
theorem slice_whole {bs : Bytes} {n : Nat} (h : bs.length = n) : slice bs 0 n = .ok bs := by
  rw [slice_of_le (by rw [Nat.zero_add, h]), List.drop_zero, ← h, List.take_length]

/-- The bytes behind the data of the response stay in the caller's buffer. -/
theorem poke_front {buf data : Bytes} (h : data.length ≤ buf.length) :
    poke buf 0 data = .ok (data ++ buf.drop data.length) := by
  rw [poke_of_le (by rw [Nat.zero_add]; exact h), List.take_zero, List.nil_append, Nat.zero_add]

/-- `libfs_read` returns when all parts are there. -/
theorem receiveRead_sent (env : Env) (errno : Int) {buf : Bytes}
    (hroom : (readCopyBuf resp.payload).length ≤ buf.length)
    (hshort : (readCopyBuf resp.payload).length < 4294967296)
    (hq : queue.filter (ofType seq)
      = responseMessages seq resp.status (readCopyBuf resp.payload)) :
    ∃ queue', receiveRead env queue seq errno buf = .ok (returned resp .read errno buf queue') ∧
      Drained seq queue queue' := by
  obtain ⟨queue', hrcv, hown, hothers⟩ :=
    receiveResponse_sent ⟨.read, seq, readCopyBuf resp.payload, hshort⟩ resp.status env hq buf
  refine ⟨queue', ?_, hown, hothers⟩
  rw [receiveRead, hrcv, returned, returnData]
  by_cases hst : resp.status = .success
  · rw [if_pos hst, if_pos hst, slice_whole rfl, ok_bind, poke_front hroom]
    rfl
  · rw [if_neg hst, if_neg hst]
    rfl

/-- `libfs_stat` fills the caller's structure if there is something to fill it
    with. -/
theorem receiveStat_whole {env cenv : Env} (errno : Int) {buf : Bytes} {args : StatArgs}
    (hfits : FitsRequest resp (.stat args)) (hroom : 56 ≤ buf.length)
    (hq : queue.filter (ofType seq)
      = [wholeMessage seq resp.status (statCopyBuf env resp.payload)]) :
    ∃ queue', receiveStat cenv queue seq errno buf = .ok (returned resp .stat errno buf queue') ∧
      Drained seq queue queue' := by
  obtain ⟨queue', hrcv, hdrained⟩ :=
    receiveWhole_whole cenv (answerData_short env resp .stat) hq
  refine ⟨queue', ?_, hdrained⟩
  rw [receiveStat, hrcv, ok_bind]
  obtain ⟨status, payload⟩ := resp
  by_cases hst : status = .success
  · obtain rfl := hst
    obtain ⟨v, rfl⟩ := hfits rfl
    have hslice : slice (statField.write v) 0 56 = .ok (statField.write v) :=
      slice_whole (statField_length v)
    have hpoke : poke buf 0 (statField.write v)
        = .ok (statField.write v ++ buf.drop (statField.write v).length) :=
      poke_front ((statField_length v).trans_le hroom)
    show (slice (statField.write v) 0 56 >>= _) = _
    rw [hslice, ok_bind, hpoke, ok_bind]
    rfl
  · simp only [if_neg hst]
    cases status with
    | success => exact absurd rfl hst
    | _ => rfl

/-- The calls that are answered with one message and fill no buffer. -/
theorem receiveCall_whole {env cenv : Env} {type : RequestType} (hread : type ≠ .read)
    (hstat : type ≠ .stat) (errno : Int) (buf : Bytes)
    (hq : queue.filter (ofType seq)
      = [wholeMessage seq resp.status (answerData env resp type)]) :
    ∃ queue', receiveCall cenv queue seq errno buf type
        = .ok (returned resp type errno buf queue') ∧ Drained seq queue queue' := by
  have hshort := answerData_short env resp type
  cases type with
  | read => exact absurd rfl hread
  | stat => exact absurd rfl hstat
  | create =>
      obtain ⟨queue', hrcv, hdrained⟩ := receiveWhole_whole cenv hshort hq
      refine ⟨queue', ?_, hdrained⟩
      rw [receiveCall, receiveCreate, hrcv, ok_bind]
      show (unsignedField.read (unsignedField.write (payloadFd resp.payload)) 0 >>= _) = _
      rw [unsignedField_read]
      rfl
  | «open» =>
      obtain ⟨queue', hrcv, hdrained⟩ := receiveOpen_whole cenv hq errno
      refine ⟨queue', ?_, hdrained⟩
      rw [receiveCall, receiveOpened, hrcv, ok_bind]
      by_cases hst : resp.status = .success
      · simp only [returned, returnValue, if_pos hst]
        rfl
      · simp only [returned, returnValue, if_neg hst]
        rfl
  | rename =>
      obtain ⟨queue', hrcv, hdrained⟩ := receiveUnchecked_whole (.ok .success) hq
      refine ⟨queue', ?_, hdrained⟩
      rw [receiveCall, receiveRename, hrcv]
      rfl
  | chmode =>
      obtain ⟨queue', hrcv, hdrained⟩ := receiveUnchecked_whole (.error .undefinedBehaviour) hq
      refine ⟨queue', ?_, hdrained⟩
      rw [receiveCall, receiveChmode, hrcv]
      rfl
  | link =>
      obtain ⟨queue', hrcv, hdrained⟩ := receiveWhole_whole cenv hshort hq
      refine ⟨queue', ?_, hdrained⟩
      rw [receiveCall, receiveLink, hrcv]
      rfl
  | symlink =>
      obtain ⟨queue', hrcv, hdrained⟩ := receiveWhole_whole cenv hshort hq
      refine ⟨queue', ?_, hdrained⟩
      rw [receiveCall, receiveLink, hrcv]
      rfl
  | close =>
      obtain ⟨queue', hrcv, hdrained⟩ := receiveWhole_whole cenv hshort hq
      refine ⟨queue', ?_, hdrained⟩
      rw [receiveCall, receiveClose, hrcv]
      rfl
  | write =>
      obtain ⟨queue', hrcv, hdrained⟩ := receiveOne_whole hshort hq
      refine ⟨queue', ?_, hdrained⟩
      rw [receiveCall, receiveWrite, hrcv]
      rfl
  | seek =>
      obtain ⟨queue', hrcv, hdrained⟩ := receiveOne_whole hshort hq
      refine ⟨queue', ?_, hdrained⟩
      rw [receiveCall, receiveSeek, hrcv]
      rfl
  | unlink =>
      obtain ⟨queue', hrcv, hdrained⟩ := receiveOne_whole hshort hq
      refine ⟨queue', ?_, hdrained⟩
      rw [receiveCall, receiveSeek, hrcv]
      rfl

/-- Whatever a handler answers, the call that asked returns it. -/
theorem receiveCall_sent {s s' : State} {env : Env} {r : Request} (hrange : InRange r)
    (hh : handle s env r = .ok (s', resp))
    (hq : queue.filter (ofType seq) = answerMessages env seq resp (requestType r)) (cenv : Env)
    (errno : Int) {buf : Bytes} (hroom : roomFor r ≤ buf.length) :
    ∃ queue', receiveCall cenv queue seq errno buf (requestType r)
        = .ok (returned resp (requestType r) errno buf queue') ∧ Drained seq queue queue' := by
  have hfits := handle_fits hh
  by_cases hread : requestType r = .read
  · cases r with
    | read args =>
        have hsize : args.size < 4294967296 := hrange.2.2.2
        exact receiveRead_sent cenv errno (hfits.trans hroom) (hfits.trans_lt hsize) hq
    | _ => cases hread
  · rw [answerMessages_whole env seq resp hread] at hq
    by_cases hstat : requestType r = .stat
    · cases r with
      | stat args => exact receiveStat_whole errno hfits hroom hq
      | _ => cases hstat
    · exact receiveCall_whole hread hstat errno buf hq

/-! ## A call waits for the whole answer -/

/-- A call waits for its first message. -/
theorem receiveCall_nil (env : Env) (seq errno : Int) (buf : Bytes) (type : RequestType) :
    receiveCall env [] seq errno buf type = .error .blocked := by
  cases type <;> rfl

/-- The message in front, when it is of the type that is asked for. -/
theorem msgrcv_head {m : ResponseMsg} (hseq : m.seq = seq) (hfits : m.length ≤ maxMsgSize - 8)
    (queue : List ResponseMsg) : msgrcv (m :: queue) (maxMsgSize - 8) seq = .ok (m, queue) := by
  have htype : ofType seq m = true := by
    rw [ofType, hseq, decide_eq_true rfl, Bool.or_true]
  rw [msgrcv, take, if_pos htype]
  exact if_neg (Nat.not_lt.mpr hfits)

/-- A part of a response fits the buffer it is received into. -/
theorem IsPart.fits {c : ClientReq} {off : Nat} {m : RequestMsg} (h : IsPart c off m)
    (status : Status) : (readAnswer status m).length ≤ maxMsgSize - 8 := by
  have hroom := h.room
  show 32 + m.partSize - 8 ≤ _
  simp only [maxMsgDataSize, maxMsgSize] at hroom ⊢
  omega

/-- The receiving loop on some of the parts that are left, but not all. -/
theorem receiveParts_blocked {c : ClientReq} {status : Status} {last : RequestMsg}
    {rest : List RequestMsg} (ms : List RequestMsg) : ∀ {off : Nat} (parts : Nat) {buf : Bytes},
      Continues c off (ms ++ last :: rest) → 0 < off →
      buf.length = c.payload.length → buf.take off = c.payload.take off →
      receiveParts c.seq c.payload.length ms.length parts status off buf
        (ms.map (readAnswer status)) = .error .blocked := by
  induction ms with
  | nil =>
      intro off parts buf hcont _ _ _
      have hin := hcont.1.inside
      have hpos := hcont.1.pos
      unfold receiveParts
      exact if_pos (by omega)
  | cons m ms ih =>
      rintro off parts buf ⟨hpart, hrest⟩ hoff hlen hbuf
      have hin := hpart.inside
      have hsize := hpart.pos
      have hshort := c.short
      obtain ⟨buf₁, hpoke, hlen₁, hbuf₁⟩ := hpart.poke_next hlen hbuf
      have hcopied : u32 (off + m.partSize) = off + m.partSize := u32_of_lt (by omega)
      have hrcv : msgrcv ((m :: ms).map (readAnswer status)) (maxMsgSize - 8) c.seq
          = .ok (readAnswer status m, ms.map (readAnswer status)) :=
        msgrcv_head (m := readAnswer status m) hpart.seq (hpart.fits status) _
      rw [List.length_cons]
      unfold receiveParts
      rw [if_pos (by omega)]
      show (msgrcv ((m :: ms).map (readAnswer status)) (maxMsgSize - 8) c.seq >>= _) = _
      rw [hrcv, ok_bind]
      show (if m.multipart = 0 then _ else _) = _
      rw [if_neg hpart.multipart]
      show (slice (readAnswer status m).bytes 0 (readAnswer status m).partSize >>= _) = _
      rw [hpart.slice_bytes status, ok_bind]
      show (poke buf m.dataOffset m.data >>= _) = _
      rw [hpart.offset, hpoke, ok_bind]
      show receiveParts c.seq c.payload.length ms.length (parts + 1) status
        (u32 (off + m.partSize)) buf₁ (ms.map (readAnswer status)) = _
      rw [hcopied]
      exact ih (parts + 1) hrest (by omega) hlen₁ hbuf₁

/-- A read whose answer has not come to its end goes on waiting. -/
theorem receiveRead_blocked (env : Env) (errno : Int) (buf : Bytes) (c : ClientReq)
    (status : Status) {got : List ResponseMsg}
    (hgot : got <+: responseMessages c.seq status c.payload)
    (hpart : got ≠ responseMessages c.seq status c.payload) :
    receiveRead env got c.seq errno buf = .error .blocked := by
  obtain ⟨later, hlater⟩ := hgot
  rw [responseMessages_eq] at hlater hpart
  obtain ⟨ms, more, hms, rfl, rfl⟩ := List.map_eq_append_iff.mp hlater.symm
  have hmore : more ≠ [] := by
    rintro rfl
    rw [List.append_nil] at hms
    exact hpart (by rw [hms])
  obtain ⟨last, rest, rfl⟩ := List.exists_cons_of_ne_nil hmore
  cases ms with
  | nil => rfl
  | cons m ms =>
      rcases requestMessages_cases c with ⟨_, he, -⟩ | ⟨m', ms', he, -, hfirst, hcont⟩
      · -- one message has no part behind it
        rw [hms, List.cons_append, List.cons.injEq] at he
        exact absurd he.2 (List.append_ne_nil_of_right_ne_nil ms hmore)
      · rw [hms, List.cons_append, List.cons.injEq] at he
        obtain ⟨rfl, rfl⟩ := he
        have hmalloc : (env.malloc m.dataSize).length = c.payload.length := by
          rw [Env.malloc_length, hfirst.size]
        obtain ⟨buf₁, hpoke, hlen₁, hbuf₁⟩ := hfirst.poke_next hmalloc rfl
        rw [Nat.zero_add] at hcont hbuf₁
        have hrcv : msgrcv ((m :: ms).map (readAnswer status)) (maxMsgSize - 8) c.seq
            = .ok (readAnswer status m, ms.map (readAnswer status)) :=
          msgrcv_head (m := readAnswer status m) hfirst.seq (hfirst.fits status) _
        have hloop := @receiveParts_blocked c status last rest ms _ 1 _ hcont hfirst.pos hlen₁ hbuf₁
        rw [receiveRead, receiveResponse, hrcv, ok_bind]
        show ((slice (readAnswer status m).bytes 0 (readAnswer status m).partSize >>= _) >>= _) = _
        rw [hfirst.slice_bytes status, ok_bind]
        show ((poke (env.malloc m.dataSize) 0 m.data >>= _) >>= _) = _
        rw [hpoke, ok_bind]
        show ((receiveParts c.seq m.dataSize (ms.map (readAnswer status)).length 1 status m.partSize
          buf₁ (ms.map (readAnswer status)) >>= _) >>= _) = _
        rw [hfirst.size, List.length_map, hloop]
        rfl

/-- A call that got some of the messages of its answer waits for the next. -/
theorem receiveCall_blocked {s s' : State} {env : Env} {r : Request} (hrange : InRange r)
    (hh : handle s env r = .ok (s', resp)) {got : List ResponseMsg}
    (hgot : got <+: answerMessages env seq resp (requestType r))
    (hpart : got ≠ answerMessages env seq resp (requestType r)) (cenv : Env) (errno : Int)
    (buf : Bytes) : receiveCall cenv got seq errno buf (requestType r) = .error .blocked := by
  by_cases hread : requestType r = .read
  · cases r with
    | read args =>
        have hfits : (readCopyBuf resp.payload).length ≤ args.size := handle_fits hh
        exact receiveRead_blocked cenv errno buf
          ⟨.read, seq, readCopyBuf resp.payload, hfits.trans_lt hrange.2.2.2⟩ resp.status hgot hpart
    | _ => cases hread
  · -- in front of a single message there is nothing
    rw [answerMessages_whole env seq resp hread] at hgot hpart
    rcases List.prefix_cons_iff.mp hgot with rfl | ⟨t, rfl, ht⟩
    · exact receiveCall_nil cenv seq errno buf (requestType r)
    · obtain rfl := List.prefix_nil.mp ht
      exact absurd rfl hpart

/-- Whatever the service answers to a request, the call that sent it returns
    this answer: it waits as long as messages of the answer are missing, then
    takes all of them and none of another call, and its value, `libfs_errno`
    and the caller's buffer are those of the response.  A caller of `libfs_stat`
    reads the attributes the service found. -/
theorem answer_returned {s s' : State} {env : Env} {r : Request} (hrange : InRange r)
    (hh : handle s env r = .ok (s', resp))
    (hq : queue.filter (ofType seq) = answerMessages env seq resp (requestType r)) (cenv : Env)
    (errno : Int) {buf : Bytes} (hroom : roomFor r ≤ buf.length) :
    (∃ queue', receiveCall cenv queue seq errno buf (requestType r)
        = .ok (returned resp (requestType r) errno buf queue') ∧ Drained seq queue queue') ∧
    (∀ got, got <+: answerMessages env seq resp (requestType r) →
      got ≠ answerMessages env seq resp (requestType r) →
      receiveCall cenv got seq errno buf (requestType r) = .error .blocked) ∧
    ∀ args stat, r = .stat args → resp = ⟨.success, .fileStat (some stat)⟩ → statField.fits stat →
      statField.read (returned resp (requestType r) errno buf queue).buf 0 = .ok stat := by
  refine ⟨receiveCall_sent hrange hh hq cenv errno hroom, ?_, ?_⟩
  · intro got hgot hpart
    exact receiveCall_blocked hrange hh hgot hpart cenv errno buf
  · rintro args stat rfl rfl hfits
    exact statField.read_write hfits (Stands.start _)

/-- The first name of a new file system is created, between messages of other
    calls, and the call returns the number of the inode. -/
theorem create_returned : ∃ queue', receiveCall stillEnv
      [emptyMessage 7 .failure, wholeMessage 5 .success [0, 0, 0, 0], emptyMessage 7 .success]
      5 0 [] .create = .ok ⟨0, 0, [], queue'⟩ := by
  have hreturns : returns ([] ++ [.create ⟨1, 1, 0o600, nameX⟩]) = true := by decide +kernel
  have hh : handle State.init stillEnv (.create ⟨1, 1, 0o600, nameX⟩)
      = .ok (_, answer [] (.create ⟨1, 1, 0o600, nameX⟩)) := (step_replay hreturns).2
  have hans : answer [] (.create ⟨1, 1, 0o600, nameX⟩) = ⟨.success, .descriptor 0⟩ := by
    decide +kernel
  have hrange : InRange (.create ⟨1, 1, 0o600, nameX⟩) := by
    refine ⟨by decide, by decide, ?_, ?_⟩
    · decide
    · decide
  rw [hans] at hh
  obtain ⟨⟨queue', hcall, -⟩, -⟩ := @answer_returned 5 ⟨.success, .descriptor 0⟩
    [emptyMessage 7 .failure, wholeMessage 5 .success [0, 0, 0, 0], emptyMessage 7 .success]
    _ _ _ _ hrange hh (by decide +kernel) stillEnv 0 [] (Nat.zero_le _)
  exact ⟨queue', hcall⟩

end Returns

end LibfsSpecs
