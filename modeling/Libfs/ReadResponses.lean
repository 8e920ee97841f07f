import Libfs.Responses

/-! # A read response arrives whole

    The parts of a response are those of a request with the same bytes, so
    the receiving loop meets a chain of parts, each behind the bytes it has
    already copied.  It stops with the last of them, whatever else is in the
    queue. -/

namespace LibfsSpecs

open LibfsHeap LibfsStdio LibfsCommon LibfsBuffer LibfsQueue

/-- The response message with the fields of a request message. -/
def readAnswer (status : Status) (m : RequestMsg) : ResponseMsg :=
  ⟨m.seq, status, m.multipart, m.dataSize, m.dataOffset, m.partSize, m.data⟩

/-- A response is cut up as a request is. -/
theorem responseRounds_map (c : ClientReq) (status : Status) (n : Nat) :
    ∀ i x, (responseRounds c.seq status c.payload n i x).map Prod.snd
      = (sendParts c n i x).map (readAnswer status) := by
  induction n with
  | zero =>
      intro i x
      rfl
  | succ n ih =>
      intro i x
      rw [responseRounds, sendParts, List.map_cons, List.map_cons]
      exact congrArg (List.cons _) (ih (i + 1) _)

theorem responseMessages_eq (c : ClientReq) (status : Status) :
    responseMessages c.seq status c.payload = (requestMessages c).map (readAnswer status) :=
  responseRounds_map c status _ _ _

/-- No round sends more than is left, and every message fits the queue. -/
theorem responseRounds_fit (seq : Int) (status : Status) (d : Bytes) (n : Nat) :
    ∀ i x, ∀ p ∈ responseRounds seq status d n i x,
      p.2.partSize ≤ p.1 ∧ p.2.length ≤ maxMsgSize - 8 := by
  induction n with
  | zero =>
      intro i x p hp
      exact nomatch hp
  | succ n ih =>
      intro i x p hp
      rw [responseRounds] at hp
      rcases List.mem_cons.mp hp with rfl | hp
      · have hpart : partDataSize x ≤ x ∧ partDataSize x ≤ maxMsgDataSize := by
          unfold partDataSize
          split <;> omega
        refine ⟨hpart.1, ?_⟩
        show 32 + partDataSize x - 8 ≤ maxMsgSize - 8
        simp only [maxMsgDataSize, maxMsgSize] at hpart ⊢
        omega
      · exact ih (i + 1) _ p hp

/-- The next message of the call is received. -/
theorem msgrcv_next {queue : List ResponseMsg} {seq : Int} {m : ResponseMsg}
    {ms : List ResponseMsg} (hq : queue.filter (ofType seq) = m :: ms)
    (hfits : m.length ≤ maxMsgSize - 8) :
    ∃ queue', msgrcv queue (maxMsgSize - 8) seq = .ok (m, queue') ∧
      queue'.filter (ofType seq) = ms ∧
      ∀ other, (∀ x, ofType seq x = true → other x = false) →
        queue'.filter other = queue.filter other := by
  obtain ⟨queue', htake, hown, hrest⟩ := take_of_filter queue hq
  refine ⟨queue', ?_, hown, hrest⟩
  unfold msgrcv
  rw [htake]
  exact if_neg (Nat.not_lt.mpr hfits)

/-- The data of a message, where they are received. -/
theorem slice_message {msg : ResponseMsg} (hsize : msg.data.length = msg.partSize)
    (hroom : msg.partSize ≤ maxMsgDataSize) : slice msg.bytes 0 msg.partSize = .ok msg.data := by
  have hfits : msg.data.length ≤ maxMsgSize - 28 := by
    simp only [maxMsgDataSize, maxMsgSize] at hroom ⊢
    omega
  rw [← hsize, slice_of_le, List.drop_zero, ResponseMsg.bytes, pad_take msg.data hfits]
  rw [ResponseMsg.bytes, pad_length, Nat.zero_add]
  exact hfits

/-- A buffer is allocated for just the bytes that are copied into it. -/
theorem poke_malloc (env : Env) {n : Nat} {bs : Bytes} (hlen : bs.length = n) :
    poke (env.malloc n) 0 bs = .ok bs := by
  rw [poke_of_le (by rw [Env.malloc_length, hlen, Nat.zero_add]), List.take_zero, List.nil_append,
    Nat.zero_add, List.drop_eq_nil_of_le (by rw [Env.malloc_length, hlen]), List.append_nil]

theorem IsPart.slice_bytes {c : ClientReq} {off : Nat} {m : RequestMsg} (h : IsPart c off m)
    (status : Status) :
    slice (readAnswer status m).bytes 0 (readAnswer status m).partSize = .ok m.data :=
  @slice_message (readAnswer status m) h.data_length h.room

/-- A part put behind the bytes that are there. -/
theorem IsPart.poke_next {c : ClientReq} {off : Nat} {m : RequestMsg} (h : IsPart c off m)
    {buf : Bytes} (hlen : buf.length = c.payload.length)
    (hbuf : buf.take off = c.payload.take off) :
    ∃ buf', poke buf off m.data = .ok buf' ∧ buf'.length = c.payload.length ∧
      buf'.take (off + m.partSize) = c.payload.take (off + m.partSize) := by
  have hin := h.inside
  have hdata := h.data_length
  have hpoke : poke buf off m.data
      = .ok (buf.take off ++ m.data ++ buf.drop (off + m.data.length)) := poke_of_le (by omega)
  refine ⟨_, hpoke, (poke_ok hpoke).2.1.trans hlen, ?_⟩
  have htake : (buf.take off ++ m.data).length = off + m.partSize := by
    rw [List.length_append, List.length_take, hdata]
    omega
  rw [← htake, List.take_left, htake, hbuf, h.data, ← List.take_add]

/-- The receiving loop on the parts that are left. -/
theorem receiveParts_continues {c : ClientReq} {status : Status} (ms : List RequestMsg) :
    ∀ {off n : Nat} (parts : Nat) {buf : Bytes} {queue : List ResponseMsg},
      Continues c off ms → 0 < off →
      queue.filter (ofType c.seq) = ms.map (readAnswer status) → ms.length ≤ n →
      buf.length = c.payload.length → buf.take off = c.payload.take off →
      ∃ queue', receiveParts c.seq c.payload.length n parts status off buf queue
          = .ok (parts + ms.length, status, c.payload, queue') ∧
        queue'.filter (ofType c.seq) = [] ∧
        ∀ other, (∀ x, ofType c.seq x = true → other x = false) →
          queue'.filter other = queue.filter other := by
  induction ms with
  | nil =>
      intro off n parts buf queue hend _ hq _ hlen hbuf
      -- nothing is left to copy, so the loop does not ask the queue
      have hoff : off = c.payload.length := hend
      have hall : buf = c.payload := by
        rw [hoff, List.take_length, ← hlen, List.take_length] at hbuf
        exact hbuf
      refine ⟨queue, ?_, hq, fun _ _ => rfl⟩
      unfold receiveParts
      rw [if_neg (by omega), hall]
      rfl
  | cons m ms ih =>
      rintro off n parts buf queue ⟨hpart, hrest⟩ hpos hq hn hlen hbuf
      cases n with
      | zero => exact absurd hn (Nat.not_succ_le_zero _)
      | succ n =>
          have hin := hpart.inside
          have hroom := hpart.room
          have hshort := c.short
          have hsize := hpart.pos
          -- the first message of the call in the queue is the next part
          obtain ⟨queue₁, hrcv, hown, hothers⟩ := msgrcv_next (m := readAnswer status m) hq (by
            show 32 + m.partSize - 8 ≤ _
            simp only [maxMsgDataSize, maxMsgSize] at hroom ⊢
            omega)
          obtain ⟨buf₁, hpoke, hlen₁, hbuf₁⟩ := hpart.poke_next hlen hbuf
          have hcopied : u32 (off + m.partSize) = off + m.partSize := u32_of_lt (by omega)
          obtain ⟨queue₂, hloop, hnone, hkeep⟩ :=
            ih (n := n) (parts + 1) hrest (by omega) hown (Nat.le_of_succ_le_succ hn) hlen₁ hbuf₁
          refine ⟨queue₂, ?_, hnone, fun other ho => (hkeep other ho).trans (hothers other ho)⟩
          unfold receiveParts
          rw [if_pos (by omega)]
          show (msgrcv queue (maxMsgSize - 8) c.seq >>= _) = _
          rw [hrcv, ok_bind]
          show (if m.multipart = 0 then _ else _) = _
          rw [if_neg hpart.multipart]
          show (slice (readAnswer status m).bytes 0 (readAnswer status m).partSize >>= _) = _
          rw [hpart.slice_bytes status, ok_bind]
          show (poke buf m.dataOffset m.data >>= _) = _
          rw [hpart.offset, hpoke, ok_bind]
          show receiveParts c.seq c.payload.length n (parts + 1) status
            (u32 (off + m.partSize)) buf₁ queue₁ = _
          rw [hcopied, hloop, List.length_cons, Nat.add_assoc, Nat.add_comm 1]

/-- The first part carries as much as fits a message. -/
theorem single_partSize {c : ClientReq} {m : RequestMsg} (h : requestMessages c = [m])
    (hroom : c.payload.length ≤ maxMsgDataSize) : m.partSize = c.payload.length := by
  obtain ⟨n, hn⟩ : ∃ n, numOfParts c.payload.length = n + 1 := by
    refine Nat.exists_eq_succ_of_ne_zero ?_
    unfold numOfParts
    dsimp only
    generalize c.payload.length / maxMsgDataSize
      + (if c.payload.length % maxMsgDataSize ≠ 0 then 1 else 0) = k
    by_cases hk : k = 0
    · rw [if_pos hk]
      exact Nat.one_ne_zero
    · rw [if_neg hk]
      exact hk
  unfold requestMessages at h
  rw [hn, sendParts] at h
  obtain ⟨rfl, -⟩ := List.cons.inj h
  exact if_neg (Nat.not_lt.mpr hroom)

/-- The response of one message. -/
theorem receiveResponse_single {c : ClientReq} {status : Status} {m : RequestMsg}
    (h : IsSingle c m) (hsize : m.partSize = c.payload.length) (env : Env)
    {queue : List ResponseMsg} (hq : queue.filter (ofType c.seq) = [readAnswer status m]) (buf : Bytes) :
    ∃ queue', receiveResponse env queue c.seq buf
        = (if status = .success then do
            let src ← slice c.payload 0 c.payload.length
            let buf ← poke buf 0 src
            .ok ⟨1, status, buf, queue'⟩
          else .ok ⟨1, status, buf, queue'⟩) ∧
      queue'.filter (ofType c.seq) = [] ∧
      ∀ other, (∀ x, ofType c.seq x = true → other x = false) →
        queue'.filter other = queue.filter other := by
  have hroom := h.room
  obtain ⟨queue', hrcv, hown, hothers⟩ := msgrcv_next hq (by
    show 32 + m.partSize - 8 ≤ _
    simp only [maxMsgDataSize, maxMsgSize] at hroom ⊢
    omega)
  have hslice : slice (readAnswer status m).bytes 0 (readAnswer status m).partSize = .ok c.payload := by
    rw [← h.data]
    have hlen : m.data.length = m.partSize := by rw [h.data, hsize]
    exact @slice_message (readAnswer status m) hlen (hsize.trans_le hroom)
  have hpoke : poke (env.malloc m.dataSize) 0 c.payload = .ok c.payload :=
    poke_malloc env h.size.symm
  refine ⟨queue', ?_, hown, hothers⟩
  unfold receiveResponse
  rw [hrcv, ok_bind]
  show (slice (readAnswer status m).bytes 0 (readAnswer status m).partSize >>= _) = _
  rw [hslice, ok_bind]
  show (poke (env.malloc m.dataSize) 0 c.payload >>= _) = _
  rw [hpoke, ok_bind]
  show (receiveParts c.seq m.dataSize queue'.length 1 status m.partSize c.payload queue' >>= _) = _
  have hdone : receiveParts c.seq m.dataSize queue'.length 1 status m.partSize c.payload queue'
      = .ok (1, status, c.payload, queue') := by
    unfold receiveParts
    rw [if_neg (by rw [hsize, h.size]; omega)]
  rw [hdone, ok_bind]
  show (if status = .success then (slice c.payload 0 m.dataSize >>= _) else _) = _
  rw [h.size]

/-- The response of several messages. -/
theorem receiveResponse_parts {c : ClientReq} {status : Status} {m : RequestMsg}
    {ms : List RequestMsg} (h : Continues c 0 (m :: ms)) (env : Env) {queue : List ResponseMsg}
    (hq : queue.filter (ofType c.seq) = (m :: ms).map (readAnswer status)) (buf : Bytes) :
    ∃ queue', receiveResponse env queue c.seq buf
        = (if status = .success then do
            let src ← slice c.payload 0 c.payload.length
            let buf ← poke buf 0 src
            .ok ⟨(m :: ms).length, status, buf, queue'⟩
          else .ok ⟨(m :: ms).length, status, buf, queue'⟩) ∧
      queue'.filter (ofType c.seq) = [] ∧
      ∀ other, (∀ x, ofType c.seq x = true → other x = false) →
        queue'.filter other = queue.filter other := by
  obtain ⟨hpart, hrest⟩ := h
  have hroom := hpart.room
  have hpos := hpart.pos
  obtain ⟨queue₁, hrcv, hown, hothers⟩ := msgrcv_next (m := readAnswer status m) hq (by
    show 32 + m.partSize - 8 ≤ _
    simp only [maxMsgDataSize, maxMsgSize] at hroom ⊢
    omega)
  have hmalloc : (env.malloc m.dataSize).length = c.payload.length := by
    rw [Env.malloc_length, hpart.size]
  obtain ⟨buf₁, hpoke, hlen₁, hbuf₁⟩ := hpart.poke_next hmalloc rfl
  rw [Nat.zero_add] at hrest hbuf₁
  have henough : ms.length ≤ queue₁.length := by
    have hle := List.length_filter_le (ofType c.seq) queue₁
    rw [hown, List.length_map] at hle
    exact hle
  obtain ⟨queue', hloop, hnone, hkeep⟩ := receiveParts_continues ms 1 hrest hpos hown henough
    hlen₁ hbuf₁
  refine ⟨queue', ?_, hnone, fun other ho => (hkeep other ho).trans (hothers other ho)⟩
  unfold receiveResponse
  rw [hrcv, ok_bind]
  show (slice (readAnswer status m).bytes 0 (readAnswer status m).partSize >>= _) = _
  rw [hpart.slice_bytes status, ok_bind]
  show (poke (env.malloc m.dataSize) 0 m.data >>= _) = _
  rw [hpoke, ok_bind]
  show (receiveParts c.seq m.dataSize queue₁.length 1 status m.partSize buf₁ queue₁ >>= _) = _
  rw [hpart.size, hloop, ok_bind, Nat.add_comm 1]
  show (if status = .success then (slice c.payload 0 m.dataSize >>= _) else _) = _
  rw [hpart.size]
  rfl

/-- A response is received with as many messages as were sent for it. -/
theorem receiveResponse_sent (c : ClientReq) (status : Status) (env : Env)
    {queue : List ResponseMsg}
    (hq : queue.filter (ofType c.seq) = responseMessages c.seq status c.payload) (buf : Bytes) :
    ∃ queue', receiveResponse env queue c.seq buf
        = (if status = .success then do
            let src ← slice c.payload 0 c.payload.length
            let buf ← poke buf 0 src
            .ok ⟨(responseMessages c.seq status c.payload).length, status, buf, queue'⟩
          else .ok ⟨(responseMessages c.seq status c.payload).length, status, buf, queue'⟩) ∧
      queue'.filter (ofType c.seq) = [] ∧
      ∀ other, (∀ x, ofType c.seq x = true → other x = false) →
        queue'.filter other = queue.filter other := by
  rw [responseMessages_eq] at hq ⊢
  rw [List.length_map]
  rcases requestMessages_cases c with ⟨m, he, hsingle⟩ | ⟨m, ms, he, -, hcont⟩
  · rw [he] at hq ⊢
    exact receiveResponse_single hsingle (single_partSize he hsingle.room) env hq buf
  · rw [he] at hq ⊢
    exact receiveResponse_parts hcont env hq buf

/-- The messages of a successful read, on a queue that holds any messages of
    other calls between them, are received as they were sent: the receiving
    loop stops after the last of them with the bytes that were read, and leaves
    nothing of the call and everything of the others in the queue. -/
theorem read_response_received {seq : Int} (hseq : 0 < seq) {d : Bytes}
    (hd : d.length ≤ dataBlockAllocSize * fileMaxBlocks) {queue : List ResponseMsg}
    (hq : queue.filter (fun m => m.seq = seq) = responseMessages seq .success d) (env : Env)
    {buf : Bytes} (hbuf : d.length ≤ buf.length) :
    (∃ queue', receiveResponse env queue seq buf
        = .ok ⟨(responseMessages seq .success d).length, .success, d ++ buf.drop d.length, queue'⟩ ∧
      queue'.filter (fun m => m.seq = seq) = [] ∧
      queue'.filter (fun m => m.seq ≠ seq) = queue.filter (fun m => m.seq ≠ seq)) ∧
    (∀ m ∈ responseMessages seq .success d, m.length ≤ maxMsgSize - 8) ∧
    ∀ p ∈ responseRounds seq .success d (numOfParts d.length) 0 d.length, p.2.partSize ≤ p.1 := by
  have hshort : d.length < 4294967296 := by
    simp only [dataBlockAllocSize, fileMaxBlocks] at hd
    omega
  have htype : ofType seq = fun m => decide (m.seq = seq) := by
    funext m
    unfold ofType
    rw [decide_eq_false (Int.ne_of_gt hseq), Bool.false_or]
  have hfit := responseRounds_fit seq .success d (numOfParts d.length) 0 d.length
  refine ⟨?_, ?_, fun p hp => (hfit p hp).1⟩
  · rw [← htype] at hq ⊢
    obtain ⟨queue', hrcv, hnone, hothers⟩ :=
      receiveResponse_sent ⟨.read, seq, d, hshort⟩ .success env hq buf
    refine ⟨queue', ?_, hnone, hothers _ ?_⟩
    · rw [hrcv, if_pos rfl, slice_of_le (by omega), List.drop_zero, List.take_length, ok_bind,
        poke_of_le (by rw [Nat.zero_add]; exact hbuf), ok_bind, List.take_zero, List.nil_append,
        Nat.zero_add]
    · intro m hm
      rw [htype] at hm
      simpa using hm
  · intro m hm
    obtain ⟨p, hp, rfl⟩ := List.mem_map.mp hm
    exact (hfit p hp).2

/-- The response of a `READ` of 8300 bytes takes three messages. -/
def longAnswer : List ResponseMsg := responseMessages 5 .success (List.replicate 8300 65)

/-- The three messages stand among those of other calls, and are received with
    all their bytes; the others stay as they are. -/
theorem read_response_between : longAnswer.length = 3 ∧ ∃ queue',
    receiveResponse ⟨fun _ => ⟨0, 0⟩, fun _ => 0⟩
      (longAnswer.flatMap fun m => [⟨7, .failure, 0, 0, 0, 0, []⟩, m, ⟨9, .success, 0, 0, 0, 0, []⟩])
      5 (List.replicate 9000 0)
      = .ok ⟨3, .success, List.replicate 8300 65 ++ List.replicate 700 0, queue'⟩ ∧
    queue'.map ResponseMsg.seq = [7, 9, 7, 9, 7, 9] := by
  have hparts : longAnswer.length = 3 := by decide +kernel
  obtain ⟨hreceived, -⟩ := @read_response_received 5 (by decide) (List.replicate 8300 65)
    (by decide +kernel)
    (longAnswer.flatMap fun m => [⟨7, .failure, 0, 0, 0, 0, []⟩, m, ⟨9, .success, 0, 0, 0, 0, []⟩])
    (by decide +kernel) ⟨fun _ => ⟨0, 0⟩, fun _ => 0⟩ (List.replicate 9000 0) (by decide +kernel)
  obtain ⟨queue', hrcv, hnone, hothers⟩ := hreceived
  have hparts' : (responseMessages 5 .success (List.replicate 8300 65)).length = 3 := hparts
  rw [List.length_replicate, List.drop_replicate, hparts'] at hrcv
  refine ⟨hparts, queue', hrcv, ?_⟩
  have hqueue : queue' = queue'.filter (fun m => m.seq ≠ 5) := by
    refine (List.filter_eq_self.mpr fun m hm => ?_).symm
    have hnot := List.filter_eq_nil_iff.mp hnone m hm
    simpa using hnot
  rw [hqueue, hothers]
  decide +kernel

end LibfsSpecs
