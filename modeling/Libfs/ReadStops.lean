import Libfs.OffsetBounds

/-! # Where a read stops

    `read_inode` goes on from block to block until it has all the bytes or
    comes to a position without block.  The size of the file is not asked for,
    so a read goes beyond it where there are blocks; and the offset has moved
    with the blocks when the next one is missing. -/

namespace LibfsSpecs

open LibfsHeap LibfsStdio LibfsCommon LibfsInode LibfsOperations LibfsRun

/-! ## The loop -/

/-- The inode has no block for the position. -/
def Missing (v : Inode) (pos : Nat) : Prop := v.dataBlocks[pos / dataBlockAllocSize]? = some 0

/-- The inode has a block for the position. -/
def Present (v : Inode) (pos : Nat) : Prop :=
  ∃ k, v.dataBlocks[pos / dataBlockAllocSize]? = some (k + 1)

theorem Present.not_missing {v : Inode} {pos : Nat} (h : Present v pos) : ¬ Missing v pos := by
  obtain ⟨k, hk⟩ := h
  intro hzero
  rw [show v.dataBlocks[pos / dataBlockAllocSize]? = some 0 from hzero] at hk
  exact nomatch hk

/-- Only positions of the largest file have a block. -/
theorem Present.lt_fileEnd {v : Inode} {pos : Nat} (h : Present v pos) : pos < fileEnd := by
  obtain ⟨k, hk⟩ := h
  by_contra hge
  have hout : fileMaxBlocks ≤ pos / dataBlockAllocSize := by
    simp only [fileEnd, dataBlockAllocSize, fileMaxBlocks] at hge ⊢
    omega
  rw [Vector.getElem?_eq_none hout] at hk
  exact nomatch hk

theorem present_of_not_missing {v : Inode} {pos : Nat} (hpos : pos < fileEnd)
    (h : ¬ Missing v pos) : Present v pos := by
  have hlt : pos / dataBlockAllocSize < fileMaxBlocks := by
    simp only [fileEnd, dataBlockAllocSize, fileMaxBlocks] at hpos ⊢
    omega
  exact (block_cases hlt).resolve_left h

/-- The block of a position serves the positions up to its end. -/
theorem Present.of_block {v : Inode} {off pos w m : Nat} (h : Present v off)
    (hw : w = min (m + 1) (dataBlockAllocSize - off % dataBlockAllocSize)) (hlo : off ≤ pos)
    (hhi : pos < off + w) : Present v pos := by
  obtain ⟨k, hk⟩ := h
  have hdiv : pos / dataBlockAllocSize = off / dataBlockAllocSize := by
    simp only [dataBlockAllocSize] at hw ⊢
    omega
  exact ⟨k, by rw [hdiv]; exact hk⟩

/-- From `off` on, all `m` positions are read, or a part of them up to the
    first one without block. -/
structure Stops (v : Inode) (off m : Nat) (st : Status) (off' : Nat) : Prop where
  le : off ≤ off'
  passed : ∀ pos, off ≤ pos → pos < off' → Present v pos
  outcome : (st = .success ∧ off' = off + m) ∨ (st = .failure ∧ off' < off + m ∧ Missing v off')

section Loop

variable {bs : BlockStore} {v : Inode}

theorem readBlocks_stop (hin : BlocksInside bs v) (n : Nat) :
    ∀ (cur curOff m off off' : Nat) (buf buf' : Bytes) (st : Status),
      (m = 0 ∨ cur = off / dataBlockAllocSize) →
      readBlocks bs v n cur curOff m off buf = .ok (st, off', buf') → Stops v off m st off' := by
  -- nothing left to be read
  have hdone : ∀ {off off' : Nat} {buf buf' : Bytes} {st : Status},
      (Except.ok (.success, off, buf) : C (Status × Nat × Bytes)) = .ok (st, off', buf') →
      Stops v off 0 st off' := by
    intro off off' buf buf' st h
    cases h
    exact ⟨Nat.le_refl _, fun pos h1 h2 => absurd h1 (Nat.not_le.mpr h2), Or.inl ⟨rfl, rfl⟩⟩
  induction n with
  | zero =>
      intro cur curOff m off off' buf buf' st _ h
      cases m with
      | succ m => cases h
      | zero =>
          rw [readBlocks.eq_1] at h
          exact hdone h
  | succ n ih =>
      intro cur curOff m off off' buf buf' st hcur h
      cases m with
      | zero =>
          rw [readBlocks.eq_1] at h
          exact hdone h
      | succ m =>
          obtain rfl : cur = off / dataBlockAllocSize := hcur.resolve_left (Nat.succ_ne_zero m)
          cases hb : v.dataBlocks[off / dataBlockAllocSize]? with
          | none =>
              rw [readBlocks_outside hb] at h
              cases h
          | some block =>
              cases block with
              | zero =>
                  rw [readBlocks_hole hb] at h
                  cases h
                  exact ⟨Nat.le_refl _, fun pos h1 h2 => absurd h1 (Nat.not_le.mpr h2),
                    Or.inr ⟨rfl, by omega, hb⟩⟩
              | succ k =>
                  obtain ⟨w, hw⟩ :
                      ∃ w, w = min (m + 1) (dataBlockAllocSize - off % dataBlockAllocSize) := ⟨_, rfl⟩
                  have hle : w ≤ m + 1 := hw.trans_le (Nat.min_le_left ..)
                  obtain ⟨got, -, -, hround⟩ := readBlocks_block hin hb n m curOff buf hw
                  rw [hround] at h
                  obtain ⟨buf₁, -, h⟩ := bind_ok_iff.mp h
                  obtain ⟨hge, hpassed, hout⟩ := ih _ _ _ _ _ _ _ _ (next_block hw) h
                  refine ⟨by omega, ?_, ?_⟩
                  · intro pos h1 h2
                    by_cases hblock : pos < off + w
                    · exact Present.of_block ⟨k, hb⟩ hw h1 hblock
                    · exact hpassed pos (Nat.not_lt.mp hblock) h2
                  · rcases hout with ⟨hst, hend⟩ | ⟨hst, hlt, hmiss⟩
                    · exact Or.inl ⟨hst, by omega⟩
                    · exact Or.inr ⟨hst, by omega, hmiss⟩

/-- A position without block ends the loop with `FAILURE`, also where the loop
    would leave the block list later. -/
theorem readBlocks_reaches (hin : BlocksInside bs v) (n : Nat) :
    ∀ (cur curOff m off pos : Nat) (buf : Bytes), cur = off / dataBlockAllocSize → m ≤ n →
      curOff + m ≤ buf.length → off ≤ pos → pos < off + m → Missing v pos →
      ∃ off' buf', readBlocks bs v n cur curOff m off buf = .ok (.failure, off', buf') := by
  induction n with
  | zero =>
      intro cur curOff m off pos buf _ hm _ hlo hhi _
      omega
  | succ n ih =>
      intro cur curOff m off pos buf hcur hm hbuf hlo hhi hmiss
      obtain ⟨m, rfl⟩ : ∃ m', m = m' + 1 := ⟨m - 1, by omega⟩
      subst hcur
      have hlt : pos / dataBlockAllocSize < fileMaxBlocks := by
        by_contra hge
        unfold Missing at hmiss
        rw [Vector.getElem?_eq_none (Nat.not_lt.mp hge)] at hmiss
        exact nomatch hmiss
      have hle : off / dataBlockAllocSize ≤ pos / dataBlockAllocSize := Nat.div_le_div_right hlo
      rcases block_cases (Nat.lt_of_le_of_lt hle hlt) with hzero | ⟨k, hb⟩
      · exact ⟨off, buf, readBlocks_hole hzero n m curOff off buf⟩
      · have hrem : off % dataBlockAllocSize < dataBlockAllocSize := Nat.mod_lt _ (by decide)
        obtain ⟨w, hw⟩ : ∃ w, w = min (m + 1) (dataBlockAllocSize - off % dataBlockAllocSize) :=
          ⟨_, rfl⟩
        have hlew : w ≤ m + 1 := hw.trans_le (Nat.min_le_left ..)
        -- the position is not in the block that is there
        have hbehind : off + w ≤ pos := by
          by_contra hin'
          exact (Present.of_block ⟨k, hb⟩ hw hlo (Nat.not_le.mp hin')).not_missing hmiss
        obtain ⟨buf₁, hlen, hround⟩ := readBlocks_round hin hb n m curOff buf hw (by omega)
        rw [hround]
        refine ih _ _ _ _ pos buf₁ ?_ (by omega) (by omega) hbehind (by omega) hmiss
        exact (next_block hw).resolve_left (by omega)

theorem readInode_stop (hin : BlocksInside bs v) {buf buf' : Bytes} {offset offset' size : Nat}
    {st : Status} (h : readInode bs v buf offset size = .ok (st, offset', buf')) :
    (fileEnd < u32 (offset + size) ∧ st = .failure ∧ offset' = offset) ∨
      (u32 (offset + size) ≤ fileEnd ∧ Stops v offset size st offset') := by
  unfold readInode at h
  by_cases hlong : u32 (offset + size) > fileEnd
  · rw [if_pos hlong] at h
    cases h
    exact Or.inl ⟨hlong, rfl, rfl⟩
  · rw [if_neg hlong] at h
    exact Or.inr ⟨Nat.not_lt.mp hlong, readBlocks_stop hin size _ _ _ _ _ _ _ _ (Or.inr rfl) h⟩

theorem readInode_too_long {buf : Bytes} {offset size : Nat}
    (hlong : fileEnd < u32 (offset + size)) :
    readInode bs v buf offset size = .ok (.failure, offset, buf) := by
  unfold readInode
  exact if_pos hlong

theorem readInode_reaches (hin : BlocksInside bs v) {buf : Bytes} {offset size pos : Nat}
    (hbuf : size ≤ buf.length) (hshort : u32 (offset + size) ≤ fileEnd) (hlo : offset ≤ pos)
    (hhi : pos < offset + size) (hmiss : Missing v pos) :
    ∃ offset' buf', readInode bs v buf offset size = .ok (.failure, offset', buf') := by
  unfold readInode
  rw [if_neg (Nat.not_lt.mpr hshort)]
  exact readBlocks_reaches hin size _ 0 size offset pos buf rfl (Nat.le_refl _) (by omega) hlo hhi
    hmiss

/-- Where all blocks are there the read succeeds. -/
theorem readInode_present (hin : BlocksInside bs v) {buf : Bytes} {offset size : Nat}
    (hbuf : size ≤ buf.length) (hshort : u32 (offset + size) ≤ fileEnd)
    (hall : ∀ pos, offset ≤ pos → pos < offset + size → Present v pos) :
    ∃ offset' buf', readInode bs v buf offset size = .ok (.success, offset', buf') := by
  cases size with
  | zero =>
      refine ⟨offset, buf, ?_⟩
      unfold readInode
      rw [if_neg (Nat.not_lt.mpr hshort), readBlocks.eq_1]
  | succ n =>
      have hlast := (hall (offset + n) (Nat.le_add_right ..) (Nat.lt_succ_self _)).lt_fileEnd
      exact readInode_total hin hbuf hlast hall

/-- Where no position without block stops it, a read of more than the blocks
    there are leaves the block list. -/
theorem readInode_leaves (hin : BlocksInside bs v) {buf : Bytes} {offset size : Nat}
    (hbuf : size ≤ buf.length) (hshort : u32 (offset + size) ≤ fileEnd)
    (hnone : ∀ pos, offset ≤ pos → pos < offset + size → ¬ Missing v pos)
    (hnot : ¬ ∀ pos, offset ≤ pos → pos < offset + size → Present v pos) :
    readInode bs v buf offset size = .error .undefinedBehaviour := by
  have hpast : fileEnd < offset + size := by
    by_contra hle
    refine hnot fun pos h1 h2 => ?_
    exact present_of_not_missing (Nat.lt_of_lt_of_le h2 (Nat.not_lt.mp hle)) (hnone pos h1 h2)
  unfold readInode
  rw [if_neg (Nat.not_lt.mpr hshort)]
  by_cases ho : offset ≤ fileEnd
  · rcases readBlocks_past hin size 0 size offset buf (Nat.le_refl _) (by omega) ho hpast
      with ⟨⟨i, hi, hzero⟩, -⟩ | ⟨-, hub⟩
    · -- the block without entry begins before the end of the read
      exfalso
      have hlt : i < fileMaxBlocks := by
        by_contra hge
        rw [Vector.getElem?_eq_none (Nat.not_lt.mp hge)] at hzero
        cases hzero
      have hdiv : max offset (dataBlockAllocSize * i) / dataBlockAllocSize = i := by
        simp only [dataBlockAllocSize] at hi ⊢
        omega
      refine hnone (max offset (dataBlockAllocSize * i)) (Nat.le_max_left ..) ?_ ?_
      · simp only [fileEnd, dataBlockAllocSize, fileMaxBlocks] at ho hpast hlt ⊢
        omega
      · unfold Missing
        rw [hdiv]
        exact hzero
    · exact hub
  · have hout : fileMaxBlocks ≤ offset / dataBlockAllocSize := by
      simp only [fileEnd, dataBlockAllocSize, fileMaxBlocks] at ho ⊢
      omega
    cases size with
    | zero => exact absurd (fun pos h1 h2 => absurd h1 (Nat.not_le.mpr h2)) hnot
    | succ m => exact readBlocks_outside (Vector.getElem?_eq_none hout) m m 0 offset buf

end Loop

/-! ## Reading through a descriptor -/

section Descriptors

variable {s s' : State} {env : Env} {fd size b a offset : Nat} {buf buf' : Bytes} {st : Status}
  {d : Descriptor} {v : Inode}

/-- A call that comes to `read_inode` returns what it makes of it. -/
theorem Reaches.read_returns (h : Reaches s fd b d a v) (hw : WellLinked s)
    (hread : readInode s.blocks { v with stat.stAtim := env.clock 0 } buf d.offset size
      = .ok (st, offset, buf')) :
    ∃ t td ld rd li ri, readInodeFd s env fd buf size
        = .ok (if st = .success then .success else .failure, buf',
          { s with inodeTable := t, descriptorTable := td }) ∧
      s.inodeTable.Updated t li ri a v { v with stat.stAtim := env.clock 0 } ∧
      s.descriptorTable.Updated td ld rd b d { d with offset := offset } := by
  obtain ⟨⟨ld, rd, hfd⟩, ⟨li, ri, hf⟩, -⟩ := h.found hw
  obtain ⟨t, ht, hup⟩ := hw.inodes.put_split hf.split { v with stat.stAtim := env.clock 0 }
  obtain ⟨td, htd, hupd⟩ := hw.descs.put_split hfd.split { d with offset := offset }
  refine ⟨t, td, ld, rd, li, ri, ?_, hup, hupd⟩
  rw [h.read_eq env buf size, ht, ok_bind, hread, ok_bind]
  show (s.descriptorTable.put b { d with offset := offset } >>= _) = _
  rw [htd]
  rfl

/-- A call that comes to `read_inode` does not stop when that returns. -/
theorem Reaches.read_stays (h : Reaches s fd b d a v) (hw : WellLinked s)
    (hread : ∃ st offset buf', readInode s.blocks { v with stat.stAtim := env.clock 0 } buf d.offset
      size = .ok (st, offset, buf')) :
    readInodeFd s env fd buf size ≠ .error .undefinedBehaviour := by
  obtain ⟨st, offset, buf', hread⟩ := hread
  obtain ⟨_, _, _, _, _, _, hcall, -⟩ := h.read_returns hw hread
  rw [hcall]
  exact fun h => nomatch h

/-- A call that comes to `read_inode` leaves the block list with it. -/
theorem Reaches.read_leaves (h : Reaches s fd b d a v) (hw : WellLinked s)
    (hread : readInode s.blocks { v with stat.stAtim := env.clock 0 } buf d.offset size
      = .error .undefinedBehaviour) :
    readInodeFd s env fd buf size = .error .undefinedBehaviour := by
  obtain ⟨-, ⟨li, ri, hf⟩, -⟩ := h.found hw
  obtain ⟨t, ht, -⟩ := hw.inodes.put_split hf.split { v with stat.stAtim := env.clock 0 }
  rw [h.read_eq env buf size, ht, ok_bind, hread]
  rfl

/-- `read_inode_fd` calls `read_inode` on the inode the descriptor leads to, or
    it changes nothing. -/
theorem readInodeFd_cases (hw : WellLinked s)
    (h : readInodeFd s env fd buf size = .ok (st, buf', s')) :
    (s' = s ∧ st = .failure) ∨ ∃ b d a v st' offset t td ld rd li ri, Reaches s fd b d a v ∧
      readInode s.blocks { v with stat.stAtim := env.clock 0 } buf d.offset size
        = .ok (st', offset, buf') ∧
      (st = .success ↔ st' = .success) ∧
      s.inodeTable.Updated t li ri a v { v with stat.stAtim := env.clock 0 } ∧
      s.descriptorTable.Updated td ld rd b d { d with offset := offset } ∧
      s' = { s with inodeTable := t, descriptorTable := td } := by
  have hcall := h
  obtain ⟨q, hq, h⟩ := bind_ok_iff.mp h
  cases q with
  | none =>
      cases h
      exact Or.inl ⟨rfl, rfl⟩
  | some b =>
      obtain ⟨d, hd, h⟩ := bind_ok_iff.mp h
      obtain ⟨p, hp, h⟩ := bind_ok_iff.mp h
      cases p with
      | none =>
          cases h
          exact Or.inl ⟨rfl, rfl⟩
      | some a =>
          obtain ⟨v, hv, h⟩ := bind_ok_iff.mp h
          obtain ⟨_, -, h⟩ := bind_ok_iff.mp h
          obtain ⟨⟨st', offset, buf₁⟩, hread, -⟩ := bind_ok_iff.mp h
          have hr : Reaches s fd b d a v := ⟨hq, hd, hp, hv⟩
          obtain ⟨t, td, ld, rd, li, ri, hret, hup, hupd⟩ := hr.read_returns hw hread
          rw [hret] at hcall
          cases hcall
          refine Or.inr ⟨b, d, a, v, st', offset, t, td, ld, rd, li, ri, hr, hread, ?_, hup, hupd, rfl⟩
          by_cases hdone : st' = .success
          · simp [hdone]
          · simp [hdone]

/-! ## A failed read and the offset -/

/-- Where the descriptors stand, by the addresses of their nodes. -/
def offsets (s : State) : List (Nat × Nat) := s.descriptorTable.live.map fun p => (p.1, p.2.offset)

/-- The reads of a file that do not get on and fail later: they are refused, or
    stop at once, or have all the blocks. -/
def FailsAtOnce (v : Inode) (offset size : Nat) : Prop :=
  fileEnd < u32 (offset + size) ∨ Missing v offset ∨
    ∀ pos, offset ≤ pos → pos < offset + size → Present v pos

/-- A call of `read_inode_fd` does not leave the block list of the file, and if
    it fails every descriptor stands where it stood. -/
structure KeepsOffsets (s : State) (env : Env) (fd : Nat) (buf : Bytes) (size : Nat) :
    Prop where
  inside : ∀ b d a v, Reaches s fd b d a v →
    readInodeFd s env fd buf size ≠ .error .undefinedBehaviour
  failure : ∀ buf' s', readInodeFd s env fd buf size = .ok (.failure, buf', s') →
    offsets s' = offsets s

/-- Such a read that fails has not moved. -/
theorem FailsAtOnce.offset_eq {bs : BlockStore} {offset' : Nat} (h : FailsAtOnce v offset size)
    (hin : BlocksInside bs v) (hread : readInode bs v buf offset size = .ok (st, offset', buf'))
    (hst : st ≠ .success) : offset' = offset := by
  rcases readInode_stop hin hread with ⟨-, -, he⟩ | ⟨hshort, hstops⟩
  · exact he
  · rcases hstops.outcome with ⟨hdone, -⟩ | ⟨-, hlt, hmiss⟩
    · exact absurd hdone hst
    · rcases h with hlong | hfirst | hall
      · exact absurd hlong (Nat.not_lt.mpr hshort)
      · -- it has not passed the position it stands at
        by_contra hne
        have hlt' : offset < offset' := Nat.lt_of_le_of_ne hstops.le (Ne.symm hne)
        exact (hstops.passed offset (Nat.le_refl _) hlt').not_missing hfirst
      · exact absurd hmiss (hall offset' hstops.le hlt).not_missing

/-- Such a read returns. -/
theorem FailsAtOnce.returns {bs : BlockStore} (h : FailsAtOnce v offset size)
    (hin : BlocksInside bs v) (hbuf : size ≤ buf.length) :
    ∃ st offset' buf', readInode bs v buf offset size = .ok (st, offset', buf') := by
  by_cases hlong : fileEnd < u32 (offset + size)
  · exact ⟨_, _, _, readInode_too_long hlong⟩
  have hshort := Nat.not_lt.mp hlong
  rcases h with h | hfirst | hall
  · exact absurd h hlong
  · by_cases hn : 0 < size
    · obtain ⟨offset', buf', hread⟩ :=
        readInode_reaches hin hbuf hshort (Nat.le_refl _) (by omega) hfirst
      exact ⟨_, _, _, hread⟩
    · obtain ⟨offset', buf', hread⟩ :=
        readInode_present hin hbuf hshort fun pos h1 h2 => absurd h2 (by omega)
      exact ⟨_, _, _, hread⟩
  · obtain ⟨offset', buf', hread⟩ := readInode_present hin hbuf hshort hall
    exact ⟨_, _, _, hread⟩

theorem offsets_updated {td : Table Descriptor} {l r : List (Nat × Descriptor)}
    (h : s.descriptorTable.Updated td l r b d { d with offset := d.offset }) {t : Table Inode} :
    offsets { s with inodeTable := t, descriptorTable := td } = offsets s := by
  unfold offsets
  show td.live.map _ = _
  rw [h.before, h.after]

/-- In every reachable state, for every descriptor number and size, a read
    stays in the block list and leaves every offset as it was if it fails
    exactly if the read of the file the descriptor leads to does not get on and
    fail later. -/
theorem failed_read_keeps_offsets_iff {es : List Event} (hr : ServiceRun es s) (env : Env)
    (fd : Nat) (hbuf : size ≤ buf.length) :
    KeepsOffsets s env fd buf size ↔
      ∀ b d a v, Reaches s fd b d a v → FailsAtOnce v d.offset size := by
  have hw := wellLinked_of_run hr
  have hs := sound_of_run hr
  have hinside : ∀ b d a v, Reaches s fd b d a v →
      BlocksInside s.blocks { v with stat.stAtim := env.clock 0 } :=
    fun b d a v h => (hs.blocksInside (Table.get_ok.mp h.file)).congr rfl
  constructor
  · intro hkeeps b d a v hreach
    have hin := hinside b d a v hreach
    by_contra hcond
    obtain ⟨hlong, hcond⟩ := not_or.mp hcond
    obtain ⟨hfirst, hall⟩ := not_or.mp hcond
    have hshort := Nat.not_lt.mp hlong
    by_cases hmissing : ∃ pos, d.offset ≤ pos ∧ pos < d.offset + size ∧ Missing v pos
    · obtain ⟨pos, hlo, hhi, hmiss⟩ := hmissing
      obtain ⟨offset, buf', hread⟩ := readInode_reaches hin hbuf hshort hlo hhi hmiss
      obtain ⟨t, td, ld, rd, li, ri, hcall, -, hup⟩ := hreach.read_returns hw hread
      have hsame := hkeeps.failure buf' _ hcall
      -- the descriptor stands at the position without block now
      have hmoved : (b, offset) ∈ offsets s := by
        rw [← hsame]
        exact List.mem_map.mpr ⟨_, hup.mem.mpr (Or.inr rfl), rfl⟩
      obtain ⟨p, hp, he⟩ := List.mem_map.mp hmoved
      obtain ⟨hb, hoff⟩ := Prod.mk.inj he
      have hpd : p.2 = d := by
        refine Heap.live_unique (a := b) ?_ (Table.get_ok.mp hreach.opened)
        rw [← hb]
        exact hp
      rw [hpd] at hoff
      rcases readInode_stop hin hread with ⟨hlong', -⟩ | ⟨-, hstops⟩
      · exact hlong hlong'
      · rcases hstops.outcome with ⟨hdone, -⟩ | ⟨-, -, hmiss'⟩
        · cases hdone
        · rw [← hoff] at hmiss'
          exact hfirst hmiss'
    · have hnone : ∀ pos, d.offset ≤ pos → pos < d.offset + size → ¬ Missing v pos :=
        fun pos h1 h2 h3 => hmissing ⟨pos, h1, h2, h3⟩
      have hleave := readInode_leaves hin hbuf hshort hnone hall
      exact hkeeps.inside b d a v hreach (hreach.read_leaves hw hleave)
  · intro hcond
    constructor
    case inside =>
      intro b d a v hreach
      have hcond' : FailsAtOnce { v with stat.stAtim := env.clock 0 } d.offset size :=
        hcond b d a v hreach
      exact hreach.read_stays hw (hcond'.returns (hinside b d a v hreach) hbuf)
    case failure =>
      intro buf' s' hcall
      rcases readInodeFd_cases hw hcall with
        ⟨rfl, -⟩ | ⟨b, d, a, v, st', offset, t, td, ld, rd, li, ri, hreach, hread, hst, -, hup, rfl⟩
      · rfl
      · have hfails : st' ≠ .success := fun h => nomatch hst.mpr h
        have hcond' : FailsAtOnce { v with stat.stAtim := env.clock 0 } d.offset size :=
          hcond b d a v hreach
        obtain rfl := hcond'.offset_eq (hinside b d a v hreach) hread hfails
        exact offsets_updated hup

/-! ## Reads and the size of the file -/

/-- A read of `size` bytes through the descriptor at `b` that does not go
    beyond the end of the file. -/
structure StopsAtEnd (s s' : State) (st : Status) (b : Nat) (d : Descriptor) (v : Inode)
    (size : Nat) : Prop where
  /-- It succeeds only on bytes of the file. -/
  success : st = .success → ((d.offset + size : Nat) : Int) ≤ v.stat.stSize
  /-- It does not move the descriptor beyond the end. -/
  stays : ∀ d', (b, d') ∈ s'.descriptorTable.live → (d.offset : Int) ≤ v.stat.stSize →
    (d'.offset : Int) ≤ v.stat.stSize
  /-- The other descriptors are not moved at all. -/
  others : ∀ p ∈ s'.descriptorTable.live, p.1 ≠ b → p ∈ s.descriptorTable.live

/-- The reads of a file that stop at its end: they are refused; or a position
    without block stops them, no later than the end if they began before it; or
    all their blocks are there, and what is read lies in the file. -/
def EndsInFile (v : Inode) (offset size : Nat) : Prop :=
  fileEnd < u32 (offset + size) ∨
    (∃ pos, offset ≤ pos ∧ pos < offset + size ∧ Missing v pos ∧
      ((offset : Int) ≤ v.stat.stSize → (pos : Int) ≤ v.stat.stSize)) ∨
    ((∀ pos, offset ≤ pos → pos < offset + size → Present v pos) ∧
      ((offset + size : Nat) : Int) ≤ v.stat.stSize)

/-- Such a read returns. -/
theorem EndsInFile.returns {bs : BlockStore} (h : EndsInFile v offset size)
    (hin : BlocksInside bs v) (hbuf : size ≤ buf.length) :
    ∃ st offset' buf', readInode bs v buf offset size = .ok (st, offset', buf') := by
  by_cases hlong : fileEnd < u32 (offset + size)
  · exact ⟨_, _, _, readInode_too_long hlong⟩
  have hshort := Nat.not_lt.mp hlong
  rcases h with h | ⟨pos, hlo, hhi, hmiss, -⟩ | ⟨hall, -⟩
  · exact absurd h hlong
  · obtain ⟨offset', buf', hread⟩ := readInode_reaches hin hbuf hshort hlo hhi hmiss
    exact ⟨_, _, _, hread⟩
  · obtain ⟨offset', buf', hread⟩ := readInode_present hin hbuf hshort hall
    exact ⟨_, _, _, hread⟩

/-- The offset such a read leaves. -/
theorem EndsInFile.bounded {bs : BlockStore} {offset' : Nat} (h : EndsInFile v offset size)
    (hin : BlocksInside bs v) (hread : readInode bs v buf offset size = .ok (st, offset', buf')) :
    (st = .success → ((offset + size : Nat) : Int) ≤ v.stat.stSize) ∧
      ((offset : Int) ≤ v.stat.stSize → (offset' : Int) ≤ v.stat.stSize) := by
  rcases readInode_stop hin hread with ⟨-, rfl, rfl⟩ | ⟨hshort, hge, hpassed, hout⟩
  · exact ⟨fun h => (nomatch h), id⟩
  · rcases h with hlong | ⟨pos, hlo, hhi, hmiss, hsize⟩ | ⟨hall, hfile⟩
    · exact absurd hlong (Nat.not_lt.mpr hshort)
    · -- it cannot have got past the position
      have hle : offset' ≤ pos := by
        by_contra hlt
        exact (hpassed pos hlo (Nat.not_le.mp hlt)).not_missing hmiss
      rcases hout with ⟨-, rfl⟩ | ⟨rfl, -, -⟩
      · exact absurd hhi (Nat.not_lt.mpr hle)
      · exact ⟨fun h => (nomatch h), fun hoff => by have := hsize hoff; omega⟩
    · rcases hout with ⟨-, rfl⟩ | ⟨-, hlt, hmiss⟩
      · exact ⟨fun _ => hfile, fun _ => hfile⟩
      · exact absurd hmiss (hall offset' hge hlt).not_missing

/-- A read that is not one of these leaves the block list or does not stop at
    the end. -/
theorem overrun_of_not_endsInFile {bs : BlockStore} (h : ¬ EndsInFile v offset size)
    (hin : BlocksInside bs v) (hbuf : size ≤ buf.length) :
    readInode bs v buf offset size = .error .undefinedBehaviour ∨
    ∃ st offset' buf', readInode bs v buf offset size = .ok (st, offset', buf') ∧
      ((st = .success ∧ v.stat.stSize < ((offset + size : Nat) : Int)) ∨
        ((offset : Int) ≤ v.stat.stSize ∧ v.stat.stSize < (offset' : Int))) := by
  unfold EndsInFile at h
  obtain ⟨hlong, h⟩ := not_or.mp h
  obtain ⟨hhole, hall⟩ := not_or.mp h
  have hshort := Nat.not_lt.mp hlong
  by_cases hmissing : ∃ pos, offset ≤ pos ∧ pos < offset + size ∧ Missing v pos
  · -- it stops at the first position without block, which is beyond the end
    obtain ⟨pos, hlo, hhi, hmiss⟩ := hmissing
    obtain ⟨offset', buf', hread⟩ := readInode_reaches hin hbuf hshort hlo hhi hmiss
    refine Or.inr ⟨.failure, offset', buf', hread, Or.inr ?_⟩
    rcases readInode_stop hin hread with ⟨hlong', -⟩ | ⟨-, hge, -, ⟨hst, -⟩ | ⟨-, hlt, hmiss'⟩⟩
    · exact absurd hlong' hlong
    · exact nomatch hst
    · by_contra hstay
      refine hhole ⟨offset', hge, hlt, hmiss', fun hoff => ?_⟩
      by_contra hbeyond
      exact hstay ⟨hoff, Int.not_le.mp hbeyond⟩
  · have hnone : ∀ pos, offset ≤ pos → pos < offset + size → ¬ Missing v pos :=
      fun pos h1 h2 h3 => hmissing ⟨pos, h1, h2, h3⟩
    by_cases hpresent : ∀ pos, offset ≤ pos → pos < offset + size → Present v pos
    · -- it succeeds
      obtain ⟨offset', buf', hread⟩ := readInode_present hin hbuf hshort hpresent
      have hsize := Int.not_le.mp fun hend => hall ⟨hpresent, hend⟩
      exact Or.inr ⟨.success, offset', buf', hread, Or.inl ⟨rfl, hsize⟩⟩
    · exact Or.inl (readInode_leaves hin hbuf hshort hnone hpresent)

/-- A `READ` stops where `read_inode_fd` does. -/
theorem handle_read_stop {args : ReadArgs} {stop : Stop} :
    handle s env (.read args) = .error stop ↔
      readInodeFd s env args.fd (env.malloc args.size) args.size = .error stop := by
  show serviceRead s env args = _ ↔ _
  unfold serviceRead
  cases readInodeFd s env args.fd (env.malloc args.size) args.size with
  | error e =>
      constructor
      · intro h
        cases h
        rfl
      · intro h
        cases h
        rfl
  | ok r =>
      constructor
      · intro h
        cases h
      · intro h
        cases h

/-- In every reachable state, for every descriptor on an inode that is there,
    a `READ` stays in the block list and stops at the end of the file exactly if
    it is one of these. -/
theorem reads_stop_at_end_iff {es : List Event} (hr : ServiceRun es s) (env : Env)
    (args : ReadArgs) (h : Reaches s args.fd b d a v) :
    (handle s env (.read args) ≠ .error .undefinedBehaviour ∧
      ∀ s' resp, handle s env (.read args) = .ok (s', resp) →
        StopsAtEnd s s' resp.status b d v args.size) ↔ EndsInFile v d.offset args.size := by
  have hw := wellLinked_of_run hr
  have hin : BlocksInside s.blocks { v with stat.stAtim := env.clock 0 } :=
    ((sound_of_run hr).blocksInside (Table.get_ok.mp h.file)).congr rfl
  have hbuf := (env.malloc_length args.size).ge
  constructor
  · rintro ⟨hinside, hstops⟩
    by_contra hcond
    have hcond' : ¬ EndsInFile { v with stat.stAtim := env.clock 0 } d.offset args.size := hcond
    rcases overrun_of_not_endsInFile hcond' hin hbuf with
      hleave | ⟨st, offset, buf', hread, hover⟩
    · exact hinside (handle_read_stop.mpr (h.read_leaves hw hleave))
    obtain ⟨t, td, ld, rd, li, ri, hcall, -, hup⟩ := h.read_returns hw hread
    have hhandle : handle s env (.read args) = .ok ({ s with inodeTable := t, descriptorTable := td },
        ⟨if st = .success then .success else .failure,
          .bytes (if (if st = .success then .success else .failure) = Status.success
            then buf' else [])⟩) := by
      show serviceRead s env args = _
      unfold serviceRead
      rw [hcall]
      rfl
    obtain ⟨hsuccess, hstays, -⟩ := hstops _ _ hhandle
    rcases hover with ⟨rfl, hbeyond⟩ | ⟨hoff, hbeyond⟩
    · exact absurd (hsuccess rfl) (Int.not_le.mpr hbeyond)
    · exact absurd (hstays _ (hup.mem.mpr (Or.inr rfl)) hoff) (Int.not_le.mpr hbeyond)
  · intro hcond
    have hcond₀ : EndsInFile { v with stat.stAtim := env.clock 0 } d.offset args.size := hcond
    have hstays : readInodeFd s env args.fd (env.malloc args.size) args.size
        ≠ .error .undefinedBehaviour := h.read_stays hw (hcond₀.returns hin hbuf)
    refine ⟨fun hleave => hstays (handle_read_stop.mp hleave), ?_⟩
    intro s' resp hhandle
    obtain ⟨⟨st, buf', s₁⟩, hcall, hhandle⟩ := bind_ok_iff.mp hhandle
    cases hhandle
    rcases readInodeFd_cases hw hcall with
      ⟨rfl, rfl⟩ | ⟨b', d', a', v', st', offset, t, td, ld, rd, li, ri, h', hread, hst, -, hup, rfl⟩
    · refine ⟨fun h => (nomatch h), ?_, fun p hp _ => hp⟩
      intro d' hd' hoff
      rw [Heap.live_unique hd' (Table.get_ok.mp h.opened)]
      exact hoff
    · obtain ⟨rfl, rfl, rfl, rfl⟩ := h.unique h'
      have hcond' : EndsInFile { v' with stat.stAtim := env.clock 0 } d'.offset args.size := hcond
      obtain ⟨hsuccess, hstays⟩ := hcond'.bounded hin hread
      constructor
      case success => exact fun hdone => hsuccess (hst.mp hdone)
      case stays =>
        intro d₁ hd₁ hoff
        rcases hup.mem.mp hd₁ with ⟨hne, -⟩ | he
        · exact absurd rfl hne
        · rw [(Prod.mk.inj he).2]
          exact hstays hoff
      case others =>
        intro p hp hne
        rcases hup.mem.mp hp with ⟨-, hold⟩ | rfl
        · exact hold
        · exact absurd rfl hne

end Descriptors

/-! ## Runs on fixed inputs -/

/-- The descriptor leads to the file, whose only block goes on behind its end. -/
theorem reaches_seventeen : ∃ b d a v, Reaches (replay seventeenBytes) 0 b d a v ∧
    d.offset = 17 ∧ v.stat.stSize = 17 ∧ Present v 17 := by
  have hfd : (replay seventeenBytes).descriptorTable.find (fun d => d.desc = 0) = .ok (some 0) := by
    decide +kernel
  have hd : (replay seventeenBytes).descriptorTable.get 0 = .ok ⟨0, .writeOnly, 17, 0⟩ := by
    decide +kernel
  have hf : (replay seventeenBytes).inodeTable.find (fun i => i.index = 0) = .ok (some 0) := by
    decide +kernel
  obtain ⟨v, hv⟩ := isOk_iff.mp
    (show ((replay seventeenBytes).inodeTable.get 0).isOk = true by decide +kernel)
  have hfile : ∀ p ∈ (replay seventeenBytes).inodeTable.live, p.2.stat.stSize = 17 ∧
      p.2.dataBlocks[0]? = some 1 := by decide +kernel
  obtain ⟨hsize, hblock⟩ := hfile _ (Table.get_ok.mp hv)
  exact ⟨0, _, 0, v, ⟨hfd, hd, hf, hv⟩, rfl, hsize, 0, hblock⟩

/-- The bytes up to the end of the block are read from it. -/
theorem failed_read_keeps_seventeen :
    KeepsOffsets (replay seventeenBytes) stillEnv 0 (List.replicate 4079 0) 4079 := by
  obtain ⟨es, hr⟩ := run_replay seventeen_returns
  refine (failed_read_keeps_offsets_iff hr stillEnv 0 List.length_replicate.ge).mpr ?_
  intro b d a v h
  obtain ⟨_, _, _, _, h', hoff, -, hpresent⟩ := reaches_seventeen
  obtain ⟨rfl, rfl, rfl, rfl⟩ := h'.unique h
  rw [hoff]
  refine Or.inr (Or.inr fun pos h1 h2 => ?_)
  exact hpresent.of_block (m := 4078) rfl h1 h2

/-- A read of 4096 bytes gets the rest of the only block and fails. -/
theorem failed_read_moves : ¬ ∀ (es : List Event) (s : State) (env : Env) (fd size : Nat)
    (buf : Bytes), ServiceRun es s → size ≤ buf.length → ∀ buf' s',
    readInodeFd s env fd buf size = .ok (.failure, buf', s') → offsets s' = offsets s := by
  intro hclaim
  obtain ⟨es, hr⟩ := run_replay seventeen_returns
  have hmoved : (readInodeFd (replay seventeenBytes) stillEnv 0 (List.replicate 4096 0) 4096).map
      (fun r => (r.1, offsets r.2.2)) = .ok (.failure, [(0, 4096)]) := by decide +kernel
  cases hcall : readInodeFd (replay seventeenBytes) stillEnv 0 (List.replicate 4096 0) 4096 with
  | error stop =>
      rw [hcall] at hmoved
      exact nomatch hmoved
  | ok r =>
      rw [hcall] at hmoved
      obtain ⟨hst, hoff⟩ := Prod.mk.inj (Except.ok.inj hmoved)
      obtain ⟨st, buf', s'⟩ := r
      obtain rfl : st = .failure := hst
      have hsame := hclaim es _ _ _ _ _ hr List.length_replicate.ge _ _ hcall
      rw [show offsets s' = _ from hoff] at hsame
      exact absurd hsame (by decide +kernel)

/-- The file of 17 bytes, whose descriptor was put back to its third byte. -/
def soughtRun : List Request := seventeenBytes ++ [.seek ⟨1, 1, 0, 2⟩]

/-- The other fifteen bytes are read and nothing behind them. -/
theorem reads_stop_sought : ∃ b d a v, Reaches (replay soughtRun) 0 b d a v ∧
    handle (replay soughtRun) stillEnv (.read ⟨1, 1, 0, 15⟩) ≠ .error .undefinedBehaviour ∧
    ∀ s' resp, handle (replay soughtRun) stillEnv (.read ⟨1, 1, 0, 15⟩) = .ok (s', resp) →
      StopsAtEnd (replay soughtRun) s' resp.status b d v 15 := by
  obtain ⟨es, hr⟩ := run_replay (show returns soughtRun = true by decide +kernel)
  have hfd : (replay soughtRun).descriptorTable.find (fun d => d.desc = 0) = .ok (some 0) := by
    decide +kernel
  have hd : (replay soughtRun).descriptorTable.get 0 = .ok ⟨0, .writeOnly, 2, 0⟩ := by
    decide +kernel
  have hf : (replay soughtRun).inodeTable.find (fun i => i.index = 0) = .ok (some 0) := by
    decide +kernel
  obtain ⟨v, hv⟩ := isOk_iff.mp
    (show ((replay soughtRun).inodeTable.get 0).isOk = true by decide +kernel)
  have hfile : ∀ p ∈ (replay soughtRun).inodeTable.live, p.2.stat.stSize = 17 ∧
      p.2.dataBlocks[0]? = some 1 := by decide +kernel
  obtain ⟨hsize, hblock⟩ := hfile _ (Table.get_ok.mp hv)
  have hreach : Reaches (replay soughtRun) 0 0 ⟨0, .writeOnly, 2, 0⟩ 0 v := ⟨hfd, hd, hf, hv⟩
  have hpresent : Present v 2 := ⟨0, hblock⟩
  have hends : EndsInFile v 2 15 := by
    refine Or.inr (Or.inr ⟨fun pos h1 h2 => ?_, by rw [hsize]; decide⟩)
    exact hpresent.of_block (m := 14) rfl h1 h2
  exact ⟨0, _, 0, v, hreach, (reads_stop_at_end_iff hr stillEnv ⟨1, 1, 0, 15⟩ hreach).mpr hends⟩

/-- At the end of a file of 17 bytes one more byte is read. -/
theorem read_beyond_end : ¬ ∀ (es : List Event) (s : State) (env : Env) (args : ReadArgs)
    (b a : Nat) (d : Descriptor) (v : Inode), ServiceRun es s → Reaches s args.fd b d a v →
    ∀ s' resp, handle s env (.read args) = .ok (s', resp) →
    StopsAtEnd s s' resp.status b d v args.size := by
  intro hclaim
  obtain ⟨es, hr⟩ := run_replay seventeen_returns
  have hret : returns (seventeenBytes ++ [.read ⟨1, 1, 0, 1⟩]) = true := by decide +kernel
  have hstep := (step_replay hret).2
  obtain ⟨b, d, a, v, h, hoff, hsize, -⟩ := reaches_seventeen
  have hok : (answer seventeenBytes (.read ⟨1, 1, 0, 1⟩)).status = .success := by decide +kernel
  have hle := (hclaim es _ _ ⟨1, 1, 0, 1⟩ b a d v hr h _ _ hstep).success hok
  rw [hoff, hsize] at hle
  exact absurd hle (by decide)

end LibfsSpecs
