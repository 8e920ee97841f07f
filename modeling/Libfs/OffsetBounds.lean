import Libfs.Disk
import Libfs.ReadBack

/-! # Offsets that wrap around

    `read_inode` and `write_inode` compare `offset + size`, computed as an
    `unsigned`, with the size of the largest file.  A sum from 2 to the 32 on
    comes back small and passes: a write then stores next to nothing and
    answers `SUCCESS`, and a read goes on past the last position of the block
    list. -/

namespace LibfsSpecs

open LibfsHeap LibfsStdio LibfsCommon LibfsInode LibfsOperations

/-- The end of the largest file. -/
abbrev fileEnd : Nat := dataBlockAllocSize * fileMaxBlocks

/-- A call of `write_inode` does not leave the block list, and if it succeeds
    the sum was in bounds and every byte of the buffer stands at its position
    of the file. -/
structure WriteStays (bs : BlockStore) (v : Inode) (buf : Bytes) (offset size : Nat) : Prop where
  indexed : writeInode bs v buf offset size ≠ .error .undefinedBehaviour
  success : ∀ v' offset' bs', writeInode bs v buf offset size = .ok (.success, v', offset', bs') →
    offset + size ≤ fileEnd ∧ offset' = offset + size ∧
      v'.stat.stSize = ((offset + size : Nat) : Int) ∧
      ∀ j, j < size → fileByte (BlockStore.file bs') v'.dataBlocks (offset + j) = buf[j]?

/-- A call of `read_inode` does not leave the block list, and if it succeeds
    the sum was in bounds. -/
structure ReadStays (bs : BlockStore) (v : Inode) (buf : Bytes) (offset size : Nat) : Prop where
  indexed : readInode bs v buf offset size ≠ .error .undefinedBehaviour
  success : ∀ offset' buf', readInode bs v buf offset size = .ok (.success, offset', buf') →
    offset + size ≤ fileEnd ∧ offset' = offset + size

section Bounds

variable {t : Table Inode} {bs : BlockStore} {a : Nat} {v : Inode} {buf : Bytes}
  {offset size : Nat}

theorem WriteStays.of_failure {v' : Inode} {offset' : Nat} {bs' : BlockStore}
    (h : writeInode bs v buf offset size = .ok (.failure, v', offset', bs')) :
    WriteStays bs v buf offset size := by
  constructor
  · rw [h]
    exact fun he => nomatch he
  · intro _ _ _ hs
    rw [h] at hs
    exact nomatch hs

theorem ReadStays.of_failure {offset' : Nat} {buf' : Bytes}
    (h : readInode bs v buf offset size = .ok (.failure, offset', buf')) :
    ReadStays bs v buf offset size := by
  constructor
  · rw [h]
    exact fun he => nomatch he
  · intro _ _ hs
    rw [h] at hs
    exact nomatch hs

/-! ## Writing -/

/-- A write beyond the largest file is refused. -/
theorem writeStays_too_long (hlt : offset + size < 4294967296) (hlong : fileEnd < offset + size) :
    WriteStays bs v buf offset size := by
  refine .of_failure (writeInode_too_long ?_)
  rw [u32_of_lt hlt]
  exact hlong

/-- A write that wants more slots than there are fails. -/
theorem writeStays_no_slots (hin : BlocksInside bs v) (hbuf : size ≤ buf.length)
    (hmax : u32 (offset + size) ≤ fileEnd)
    (hshort : (freeSlots bs.dataBlockTable).length < newCount v offset size) :
    WriteStays bs v buf offset size := by
  have hafter := writeInode_after hin hbuf hmax
  rw [if_neg (Nat.not_le.mpr hshort)] at hafter
  exact .of_failure hafter

/-- A write inside the largest file keeps the bounds when its bytes are read
    back at their positions. -/
theorem writeStays_iff_bytes (hin : BlocksInside bs v) (hbuf : size ≤ buf.length)
    (hfit : offset + size ≤ fileEnd)
    (henough : newCount v offset size ≤ (freeSlots bs.dataBlockTable).length) :
    WriteStays bs v buf offset size ↔
      ∀ j, j < size → byteAfter bs v buf offset size (offset + j) = buf[j]? := by
  have hu : u32 (offset + size) = offset + size := by
    apply u32_of_lt
    simp only [fileEnd, dataBlockAllocSize, fileMaxBlocks] at hfit
    omega
  have hafter := writeInode_after hin hbuf (hu.trans_le hfit)
  rw [if_pos henough] at hafter
  constructor
  · intro h
    exact (h.success _ _ _ hafter).2.2.2
  · intro hbytes
    constructor
    · rw [hafter]
      exact fun h => nomatch h
    · intro v' offset' bs' h
      rw [hafter] at h
      cases h
      exact ⟨hfit, hu, congrArg Int.ofNat hu, hbytes⟩

/-- A write whose sum does not wrap stores nothing, is refused, or is in step
    with the data file. -/
def Storable (bs : BlockStore) (v : Inode) (offset size : Nat) : Prop :=
  size = 0 ∨ fileEnd < offset + size ∨
    (freeSlots bs.dataBlockTable).length < newCount v offset size ∨ InStep bs v offset size

/-- Without a wrap the bounds are kept whatever the data exactly if the write
    is storable. -/
theorem writeStays_iff_storable (hs : Sound t bs) (hv : (a, v) ∈ t.live)
    (hlt : offset + size < 4294967296) :
    (∀ buf : Bytes, buf.length = size → WriteStays bs v buf offset size) ↔
      Storable bs v offset size := by
  have hin := hs.blocksInside hv
  by_cases hfit : offset + size ≤ fileEnd
  · have hmax : u32 (offset + size) ≤ fileEnd := (u32_of_lt hlt).trans_le hfit
    by_cases henough : newCount v offset size ≤ (freeSlots bs.dataBlockTable).length
    · have hbytes : ∀ buf : Bytes, buf.length = size → (WriteStays bs v buf offset size ↔
          ∀ j, j < size → byteAfter bs v buf offset size (offset + j) = buf[j]?) :=
        fun buf hbuf => writeStays_iff_bytes hin hbuf.ge hfit henough
      constructor
      · intro hall
        by_cases hn : size = 0
        · exact Or.inl hn
        · refine Or.inr (Or.inr (Or.inr ?_))
          refine (inStep_iff hs hv hfit henough (Nat.pos_of_ne_zero hn)).mp ?_
          intro buf hbuf
          exact (hbytes buf hbuf).mp (hall buf hbuf)
      · intro hcond buf hbuf
        refine (hbytes buf hbuf).mpr fun j hj => ?_
        rcases hcond with hn | hlong | hshort | hstep
        · omega
        · exact absurd hfit (Nat.not_le.mpr hlong)
        · exact absurd henough (Nat.not_le.mpr hshort)
        · exact byteAfter_inStep hs hv hbuf hfit henough hstep hj
    · have hshort := Nat.not_le.mp henough
      exact ⟨fun _ => Or.inr (Or.inr (Or.inl hshort)),
        fun _ buf hbuf => writeStays_no_slots hin hbuf.ge hmax hshort⟩
  · have hlong := Nat.not_le.mp hfit
    exact ⟨fun _ => Or.inr (Or.inl hlong), fun _ _ _ => writeStays_too_long hlt hlong⟩

/-- What the sum comes back as when it wraps. -/
theorem u32_wrapped (ho : offset ≤ fileEnd) (hn : size < 4294967296)
    (hwrap : ¬ offset + size < 4294967296) :
    u32 (offset + size) + 4294967296 = offset + size ∧ u32 (offset + size) < offset := by
  unfold u32
  simp only [fileEnd, dataBlockAllocSize, fileMaxBlocks] at ho
  omega

/-- With a wrap `write_inode` goes through its loop once at most: the sum has
    come back to the block of the offset, or to one before it. -/
theorem rounds_wrapped (ho : offset ≤ fileEnd) (hn : size < 4294967296)
    (hwrap : ¬ offset + size < 4294967296) :
    rounds offset size ≤ 1 ∧ (0 < rounds offset size ↔
      dataBlockAllocSize * (offset / dataBlockAllocSize) + 4294967296 < offset + size) := by
  obtain ⟨hsum, hless⟩ := u32_wrapped ho hn hwrap
  unfold rounds totalBlocks
  generalize u32 (offset + size) = m at hsum hless ⊢
  simp only [dataBlockAllocSize]
  split <;> omega

/-- The one thing that stops a write whose sum has wrapped: it needs a block
    and there is none. -/
def NoBlockLeft (bs : BlockStore) (v : Inode) (offset size : Nat) : Prop :=
  dataBlockAllocSize * (offset / dataBlockAllocSize) + 4294967296 < offset + size ∧
    v.dataBlocks[offset / dataBlockAllocSize]? = some 0 ∧ freeSlots bs.dataBlockTable = []

theorem noBlockLeft_iff (ho : offset ≤ fileEnd) (hn : size < 4294967296)
    (hwrap : ¬ offset + size < 4294967296) :
    NoBlockLeft bs v offset size ↔
      ¬ newCount v offset size ≤ (freeSlots bs.dataBlockTable).length := by
  obtain ⟨hone, hpos⟩ := rounds_wrapped ho hn hwrap
  constructor
  · rintro ⟨hlate, hzero, hnone⟩
    have hstart : ¬ startsInside v offset size = true := startsInside_hole hzero
    have hround := hpos.mpr hlate
    rw [newCount_outside hstart, hnone, List.length_nil]
    omega
  · intro hmany
    have hstart : ¬ startsInside v offset size = true := by
      intro h
      refine hmany ?_
      rw [newCount_inside h]
      omega
    have hcount := newCount_outside hstart
    have hround : 0 < rounds offset size := by omega
    have hmax : u32 (offset + size) ≤ fileEnd := by
      have := (u32_wrapped ho hn hwrap).2
      omega
    have htotal := totalBlocks_le hmax
    have hrounds : rounds offset size
        = totalBlocks (u32 (offset + size)) - offset / dataBlockAllocSize := rfl
    refine ⟨hpos.mp hround, notInside hround (by omega) hstart, ?_⟩
    exact List.eq_nil_of_length_eq_zero (by omega)

/-- A write whose sum has wrapped keeps the bounds only if it fails. -/
theorem writeStays_iff_wrapped (hin : BlocksInside bs v) (hbuf : size ≤ buf.length)
    (ho : offset ≤ fileEnd) (hn : size < 4294967296) (hwrap : ¬ offset + size < 4294967296) :
    WriteStays bs v buf offset size ↔ NoBlockLeft bs v offset size := by
  obtain ⟨hsum, hless⟩ := u32_wrapped ho hn hwrap
  have hmax : u32 (offset + size) ≤ fileEnd := by omega
  rw [noBlockLeft_iff ho hn hwrap]
  by_cases henough : newCount v offset size ≤ (freeSlots bs.dataBlockTable).length
  · have hafter := writeInode_after hin hbuf hmax
    rw [if_pos henough] at hafter
    constructor
    · intro h
      have hle := (h.success _ _ _ hafter).1
      simp only [fileEnd, dataBlockAllocSize, fileMaxBlocks] at hle
      omega
    · intro h
      exact absurd henough h
  · exact ⟨fun _ => henough,
      fun _ => writeStays_no_slots hin hbuf hmax (Nat.not_le.mp henough)⟩

/-- The calls of `write_inode` that keep the bounds whatever the data. -/
theorem writeStays_iff (hs : Sound t bs) (hv : (a, v) ∈ t.live) (ho : offset ≤ fileEnd)
    (hn : size < 4294967296) :
    (∀ buf : Bytes, buf.length = size → WriteStays bs v buf offset size) ↔
      (offset + size < 4294967296 ∧ Storable bs v offset size) ∨
        NoBlockLeft bs v offset size := by
  by_cases hwrap : offset + size < 4294967296
  · rw [writeStays_iff_storable hs hv hwrap]
    constructor
    · intro h
      exact Or.inl ⟨hwrap, h⟩
    · rintro (⟨-, h⟩ | ⟨hlate, -, -⟩)
      · exact h
      · omega
  · have hin := hs.blocksInside hv
    have hone : ∀ buf : Bytes, buf.length = size →
        (WriteStays bs v buf offset size ↔ NoBlockLeft bs v offset size) :=
      fun buf hbuf => writeStays_iff_wrapped hin hbuf.ge ho hn hwrap
    constructor
    · intro hall
      have hbuf : (List.replicate size (0 : UInt8)).length = size := List.length_replicate
      exact Or.inr ((hone _ hbuf).mp (hall _ hbuf))
    · rintro (⟨h, -⟩ | h)
      · exact absurd h hwrap
      · exact fun buf hbuf => (hone buf hbuf).mpr h

/-! ## Reading -/

/-- The block at a position of the list. -/
theorem block_cases {v : Inode} {i : Nat} (hi : i < fileMaxBlocks) :
    v.dataBlocks[i]? = some 0 ∨ ∃ k, v.dataBlocks[i]? = some (k + 1) := by
  rw [Vector.getElem?_eq_getElem hi]
  cases v.dataBlocks[i] with
  | zero => exact Or.inl rfl
  | succ k => exact Or.inr ⟨k, rfl⟩

/-- The loop of `read_inode` returns when it stays in the file. -/
theorem readBlocks_inside (hin : BlocksInside bs v) (n : Nat) :
    ∀ (cur curOff m off : Nat) (buf : Bytes), (m = 0 ∨ cur = off / dataBlockAllocSize) → m ≤ n →
      curOff + m ≤ buf.length → off + m ≤ fileEnd →
      ∃ r, readBlocks bs v n cur curOff m off buf = .ok r := by
  induction n with
  | zero =>
      intro cur curOff m off buf _ hm _ _
      obtain rfl := Nat.le_zero.mp hm
      exact ⟨_, by rw [readBlocks.eq_1]⟩
  | succ n ih =>
      intro cur curOff m off buf hcur hm hbuf hend
      cases m with
      | zero => exact ⟨_, by rw [readBlocks.eq_1]⟩
      | succ m =>
          obtain rfl : cur = off / dataBlockAllocSize := hcur.resolve_left (Nat.succ_ne_zero m)
          have hlt : off / dataBlockAllocSize < fileMaxBlocks := by
            simp only [fileEnd, dataBlockAllocSize, fileMaxBlocks] at hend ⊢
            omega
          rcases block_cases hlt with hzero | ⟨k, hb⟩
          · exact ⟨_, readBlocks_hole hzero n m curOff off buf⟩
          · have hrem : off % dataBlockAllocSize < dataBlockAllocSize := Nat.mod_lt _ (by decide)
            obtain ⟨w, hw⟩ : ∃ w, w = min (m + 1) (dataBlockAllocSize - off % dataBlockAllocSize) :=
              ⟨_, rfl⟩
            have hle : w ≤ m + 1 := hw.trans_le (Nat.min_le_left ..)
            have hpos : 0 < w := by omega
            obtain ⟨buf₁, hlen, hround⟩ := readBlocks_round hin hb n m curOff buf hw (by omega)
            rw [hround]
            exact ih _ _ _ _ buf₁ (next_block hw) (by omega) (by omega) (by omega)

/-- When it is to read on behind the end of the largest file, a position
    without block stops it, or it leaves the block list. -/
theorem readBlocks_past (hin : BlocksInside bs v) (n : Nat) :
    ∀ (curOff m off : Nat) (buf : Bytes), m ≤ n → curOff + m ≤ buf.length → off ≤ fileEnd →
      fileEnd < off + m →
      ((∃ i, off / dataBlockAllocSize ≤ i ∧ v.dataBlocks[i]? = some 0) ∧
        ∃ off' buf', readBlocks bs v n (off / dataBlockAllocSize) curOff m off buf
          = .ok (.failure, off', buf')) ∨
      ((∀ i, off / dataBlockAllocSize ≤ i → v.dataBlocks[i]? ≠ some 0) ∧
        readBlocks bs v n (off / dataBlockAllocSize) curOff m off buf
          = .error .undefinedBehaviour) := by
  induction n with
  | zero =>
      intro curOff m off buf hm _ _ hend
      omega
  | succ n ih =>
      intro curOff m off buf hm hbuf hoff hend
      obtain ⟨m, rfl⟩ : ∃ m', m = m' + 1 := ⟨m - 1, by omega⟩
      by_cases hlt : off / dataBlockAllocSize < fileMaxBlocks
      · rcases block_cases hlt with hzero | ⟨k, hb⟩
        · exact Or.inl ⟨⟨_, Nat.le_refl _, hzero⟩, off, buf, readBlocks_hole hzero n m curOff off buf⟩
        · have hrem : off % dataBlockAllocSize < dataBlockAllocSize := Nat.mod_lt _ (by decide)
          obtain ⟨w, hw⟩ : ∃ w, w = min (m + 1) (dataBlockAllocSize - off % dataBlockAllocSize) :=
            ⟨_, rfl⟩
          have hle : w ≤ m + 1 := hw.trans_le (Nat.min_le_left ..)
          -- the rest of the block is less than what is asked for
          have hnext : off / dataBlockAllocSize + 1 = (off + w) / dataBlockAllocSize ∧ 0 < w ∧
              off + w ≤ fileEnd := by
            simp only [fileEnd, dataBlockAllocSize, fileMaxBlocks] at hw hlt hend hrem ⊢
            omega
          obtain ⟨hdiv, hpos, hin'⟩ := hnext
          obtain ⟨buf₁, hlen, hround⟩ := readBlocks_round hin hb n m curOff buf hw (by omega)
          rw [hround, hdiv]
          rcases ih (curOff + w) (m + 1 - w) (off + w) buf₁ (by omega) (by omega) hin' (by omega)
            with ⟨⟨i, hi, hzero⟩, hstop⟩ | ⟨hnone, hub⟩
          · exact Or.inl ⟨⟨i, by omega, hzero⟩, hstop⟩
          · refine Or.inr ⟨?_, hub⟩
            intro i hi hzero
            by_cases hsame : i = off / dataBlockAllocSize
            · rw [hsame, hb] at hzero
              exact nomatch hzero
            · exact hnone i (by omega) hzero
      · -- the position behind the last block
        refine Or.inr ⟨?_, ?_⟩
        · intro i hi hzero
          rw [Vector.getElem?_eq_none (by omega)] at hzero
          exact nomatch hzero
        · exact readBlocks_outside (Vector.getElem?_eq_none (by omega)) n m curOff off buf

/-- The calls of `read_inode` that keep the bounds. -/
theorem readStays_iff (hin : BlocksInside bs v) (hbuf : size ≤ buf.length) (ho : offset ≤ fileEnd)
    (hn : size < 4294967296) :
    ReadStays bs v buf offset size ↔ offset + size < 4294967296 ∨
      ∃ i, offset / dataBlockAllocSize ≤ i ∧ v.dataBlocks[i]? = some 0 := by
  by_cases hwrap : offset + size < 4294967296
  · refine ⟨fun _ => Or.inl hwrap, fun _ => ?_⟩
    have hu : u32 (offset + size) = offset + size := u32_of_lt hwrap
    by_cases hfit : offset + size ≤ fileEnd
    · have hread : readInode bs v buf offset size
          = readBlocks bs v size (offset / dataBlockAllocSize) 0 size offset buf := by
        unfold readInode
        rw [hu, if_neg (Nat.not_lt.mpr hfit)]
      obtain ⟨r, hr⟩ := readBlocks_inside hin size _ 0 size offset buf (Or.inr rfl)
        (Nat.le_refl _) (by omega) hfit
      constructor
      · rw [hread, hr]
        exact fun h => nomatch h
      · intro offset' buf' h
        exact ⟨hfit, (readInode_ok h hin).1⟩
    · have hlong : readInode bs v buf offset size = .ok (.failure, offset, buf) := by
        unfold readInode
        rw [hu, if_pos (Nat.not_le.mp hfit)]
      exact .of_failure hlong
  · obtain ⟨hsum, hless⟩ := u32_wrapped ho hn hwrap
    have hread : readInode bs v buf offset size
        = readBlocks bs v size (offset / dataBlockAllocSize) 0 size offset buf := by
      unfold readInode
      rw [if_neg (Nat.not_lt.mpr (show u32 (offset + size) ≤ fileEnd by omega))]
    have hpast : fileEnd < offset + size := by
      simp only [fileEnd, dataBlockAllocSize, fileMaxBlocks]
      omega
    rcases readBlocks_past hin size 0 size offset buf (Nat.le_refl _) (by omega) ho hpast
      with ⟨hhole, off', buf', hstop⟩ | ⟨hnone, hub⟩
    · exact ⟨fun _ => Or.inr hhole, fun _ => .of_failure (hread.trans hstop)⟩
    · constructor
      · intro h
        exact absurd (hread.trans hub) h.indexed
      · rintro (h | ⟨i, hi, hzero⟩)
        · exact absurd h hwrap
        · exact absurd hzero (hnone i hi)

/-- For every inode of sound tables, every offset inside the largest file and
    every 32-bit size: writes keep to the bounds and store their bytes exactly
    when the sum does not wrap and the write is storable, or there is no block
    to go on with, and reads exactly when the sum does not wrap or a missing
    block stops them. -/
theorem offsets_stay_inside (hs : Sound t bs) (hv : (a, v) ∈ t.live) (ho : offset ≤ fileEnd)
    (hn : size < 4294967296) :
    ((∀ buf : Bytes, buf.length = size → WriteStays bs v buf offset size) ↔
      (offset + size < 4294967296 ∧ Storable bs v offset size) ∨
        NoBlockLeft bs v offset size) ∧
    (∀ buf : Bytes, size ≤ buf.length → (ReadStays bs v buf offset size ↔
      offset + size < 4294967296 ∨
        ∃ i, offset / dataBlockAllocSize ≤ i ∧ v.dataBlocks[i]? = some 0)) :=
  ⟨writeStays_iff hs hv ho hn,
    fun _ hbuf => readStays_iff (hs.blocksInside hv) hbuf ho hn⟩

end Bounds

/-- A file of 17 bytes, whose descriptor stands at its end. -/
def seventeenBytes : List Request :=
  [.create ⟨1, 1, 0o600, nameX⟩, .open ⟨1, 1, nameX, 1⟩,
    .write ⟨1, 1, 0, 17, List.replicate 17 65⟩]

theorem seventeen_returns : returns seventeenBytes = true := by decide +kernel

/-- Five thousand more bytes, the rest of the block and a new one, are written
    within bounds, and a read of them fails for want of the second block. -/
theorem offsets_stay_seventeen : ∃ v, (0, v) ∈ (replay seventeenBytes).inodeTable.live ∧
    (∀ buf : Bytes, buf.length = 5000 →
      WriteStays (replay seventeenBytes).blocks v buf 17 5000) ∧
    ∀ buf : Bytes, 5000 ≤ buf.length →
      ReadStays (replay seventeenBytes).blocks v buf 17 5000 := by
  obtain ⟨es, hr⟩ := run_replay seventeen_returns
  have hget : ((replay seventeenBytes).inodeTable.get 0).isOk = true := by decide +kernel
  obtain ⟨v, hv⟩ := isOk_iff.mp hget
  have hmem := Table.get_ok.mp hv
  have hblock : ∀ p ∈ (replay seventeenBytes).inodeTable.live,
      p.2.dataBlocks[17 / dataBlockAllocSize]? ≠ some 0 := by decide +kernel
  have hfirst : firstFree (replay seventeenBytes).blocks.dataBlockTable
      = some (fileBlocks (replay seventeenBytes).blocks) := by decide +kernel
  have hstep : InStep (replay seventeenBytes).blocks v 17 5000 :=
    ⟨Or.inr (hblock _ hmem), Or.inr hfirst⟩
  obtain ⟨hwrite, hread⟩ := offsets_stay_inside (sound_of_run hr) hmem
    (show 17 ≤ fileEnd by decide) (show 5000 < 4294967296 by decide)
  exact ⟨v, hmem, hwrite.mpr (Or.inl ⟨by decide, Or.inr (Or.inr (Or.inr hstep))⟩),
    fun buf hbuf => (hread buf hbuf).mpr (Or.inl (by decide))⟩

/-- A write of 4294967279 bytes at offset 17 stores nothing, makes the file
    empty and succeeds. -/
theorem wrapped_write_succeeds : ¬ ∀ (t : Table Inode) (bs : BlockStore) (a : Nat) (v : Inode)
    (offset size : Nat), Sound t bs → (a, v) ∈ t.live → offset ≤ fileEnd → size < 4294967296 →
    (∀ buf : Bytes, buf.length = size → WriteStays bs v buf offset size) ∧
      ∀ buf : Bytes, size ≤ buf.length → ReadStays bs v buf offset size := by
  intro hclaim
  obtain ⟨es, hr⟩ := run_replay seventeen_returns
  have hget : ((replay seventeenBytes).inodeTable.get 0).isOk = true := by decide +kernel
  obtain ⟨v, hv⟩ := isOk_iff.mp hget
  have hmem := Table.get_ok.mp hv
  have hs := sound_of_run hr
  have hbuf : (List.replicate 4294967279 (0 : UInt8)).length = 4294967279 :=
    List.length_replicate
  obtain ⟨hstays, -⟩ := hclaim _ _ 0 v 17 4294967279 hs hmem (by decide) (by decide)
  have hmax : u32 (17 + 4294967279) ≤ fileEnd := by decide
  have hwrite := writeInode_after (hs.blocksInside hmem) hbuf.ge hmax
  have hcount : newCount v 17 4294967279 = 0 := by
    have hrounds : rounds 17 4294967279 = 0 := by decide
    unfold newCount
    rw [hrounds, Nat.zero_sub]
  rw [hcount, if_pos (Nat.zero_le _)] at hwrite
  have hle := ((hstays _ hbuf).success _ _ _ hwrite).1
  exact absurd hle (by decide)

end LibfsSpecs
