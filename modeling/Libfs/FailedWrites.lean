import Libfs.OffsetBounds
import Libfs.WriteFrame

/-! # Writes that fail

    A write that is refused before its loop leaves everything as it was.  One
    that finds too few free slots has by then filled the block it starts in
    and taken the slots there are, and none of it is undone.

    The bytes of a file are those of its blocks: `read_inode` delivers them
    whatever `st_size` says. -/

namespace LibfsSpecs

open LibfsHeap LibfsStdio LibfsCommon LibfsInode LibfsOperations LibfsRun

/-- The file the descriptor number `fd` leads to, the descriptors and the
    block table are as they were. -/
structure LeftAlone (s s' : State) (fd : Nat) : Prop where
  table : s'.blocks.dataBlockTable = s.blocks.dataBlockTable
  descriptors : ∀ p, p ∈ s'.descriptorTable.live ↔ p ∈ s.descriptorTable.live
  file : ∀ b d a v, Reaches s fd b d a v → ∃ v', (a, v') ∈ s'.inodeTable.live ∧ SameFile v v' ∧
    ∀ pos, fileByte (BlockStore.file s'.blocks) v'.dataBlocks pos
      = fileByte (BlockStore.file s.blocks) v.dataBlocks pos

/-- If the write fails, it leaves the file alone. -/
def FailsCleanly (s : State) (env : Env) (fd : Nat) (buf : Bytes) (size : Nat) : Prop :=
  ∀ st s', writeInodeFd s env fd buf size = .ok (st, s') → st ≠ .success → LeftAlone s s' fd

/-- If the descriptor is open for writing and leads to a file, the write is
    too long, or there are slots enough, or there is no slot at all and the
    bytes for the block the write starts in are there already. -/
def NothingToUndo (s : State) (fd : Nat) (buf : Bytes) (size : Nat) : Prop :=
  ∀ b d a v, Reaches s fd b d a v → d.mode = .writeOnly →
    fileEnd < u32 (d.offset + size) ∨
    newCount v d.offset size ≤ (freeSlots s.blocks.dataBlockTable).length ∨
    (freeSlots s.blocks.dataBlockTable = [] ∧ ∀ j, j < headSize v d.offset size →
      fileByte (BlockStore.file s.blocks) v.dataBlocks (d.offset + j) = buf[j]?)

/-! ## No slot left -/

/-- Writing what is there already. -/
theorem fwriteAt_same {file bs : Bytes} {pos : Nat} (h : pos + bs.length ≤ file.length)
    (hsame : ∀ j, j < bs.length → file[pos + j]? = bs[j]?) : fwriteAt file pos bs = file := by
  apply List.ext_getElem?
  intro i
  rw [fwriteAt_getElem? h]
  by_cases hi : pos ≤ i ∧ i < pos + bs.length
  · rw [if_pos hi, ← hsame (i - pos) (by omega), Nat.add_sub_cancel' hi.1]
  · rw [if_neg hi]

section Slots

variable {bs : BlockStore} {v : Inode} {buf : Bytes} {offset size : Nat}

/-- The bytes for the block the write starts in stay inside that block. -/
theorem head_in_block {j : Nat} (hj : j < headSize v offset size) :
    startsInside v offset size = true ∧
      (offset + j) / dataBlockAllocSize = offset / dataBlockAllocSize ∧
      (offset + j) % dataBlockAllocSize = offset % dataBlockAllocSize + j := by
  by_cases hs : startsInside v offset size = true
  · rw [headSize_inside hs] at hj
    have hrem : offset % dataBlockAllocSize < dataBlockAllocSize := Nat.mod_lt _ (by decide)
    obtain ⟨hdiv, hmod⟩ := pos_in_block offset j (by omega)
    exact ⟨hs, hdiv, hmod⟩
  · rw [headSize_outside hs] at hj
    exact absurd hj (Nat.not_lt_zero j)

/-- A write without slots that finds its bytes there leaves the data file. -/
theorem updated_same (hin : BlocksInside bs v)
    (hsame : ∀ j, j < headSize v offset size →
      fileByte (BlockStore.file bs) v.dataBlocks (offset + j) = buf[j]?) :
    BlockStore.file (updated bs v buf offset size) = BlockStore.file bs := by
  by_cases hs : startsInside v offset size = true
  · obtain ⟨k, hk, -⟩ := startsInside_iff.mp hs
    obtain ⟨-, hfit⟩ := headSize_fits hin buf hs hk
    rw [updated_file_eq hin hs hk]
    refine fwriteAt_same hfit ?_
    intro j hj
    have hhead : j < headSize v offset size := by
      rw [List.length_take] at hj
      omega
    obtain ⟨-, hdiv, hmod⟩ := head_in_block hhead
    have hbyte := hsame j hhead
    rw [fileByte_eq (k := k) (by rw [hdiv]; exact hk), hmod, ← Nat.add_assoc] at hbyte
    rw [hbyte, List.getElem?_take_of_lt hhead]
  · have hupd : updated bs v buf offset size = bs := if_neg hs
    rw [hupd]

/-- A write without slots changes the starting block at most. -/
theorem after_without_slots (hnone : freeSlots bs.dataBlockTable = []) :
    (storeAfter bs v buf offset size).dataBlockTable = bs.dataBlockTable ∧
      (inodeAfter bs v offset size).dataBlocks = v.dataBlocks ∧
      BlockStore.file (storeAfter bs v buf offset size)
        = BlockStore.file (updated bs v buf offset size) := by
  have hslots : newSlots bs v offset size = [] := by
    unfold newSlots
    rw [hnone, List.take_nil]
  refine ⟨?_, ?_, ?_⟩
  · show occupySlots v.index bs.dataBlockTable (newSlots bs v offset size) = _
    rw [hslots]
    rfl
  · show putBlocks v.dataBlocks _ (newSlots bs v offset size) = _
    rw [hslots]
    rfl
  · rw [file_storeAfter, hslots]
    exact List.append_nil _

/-- The two ways to fail. -/
theorem writeInode_failed {bs' : BlockStore} {v' : Inode} {offset' : Nat} {st : Status}
    (hin : BlocksInside bs v) (hbuf : size ≤ buf.length)
    (h : writeInode bs v buf offset size = .ok (st, v', offset', bs')) (hst : st ≠ .success) :
    (fileEnd < u32 (offset + size) ∧ v' = v ∧ offset' = offset ∧ bs' = bs) ∨
      (u32 (offset + size) ≤ fileEnd ∧
        ¬ newCount v offset size ≤ (freeSlots bs.dataBlockTable).length ∧
        v' = inodeAfter bs v offset size ∧ offset' = offset ∧
        bs' = storeAfter bs v buf offset size) := by
  by_cases hmax : u32 (offset + size) ≤ fileEnd
  · rw [writeInode_after hin hbuf hmax] at h
    by_cases henough : newCount v offset size ≤ (freeSlots bs.dataBlockTable).length
    · rw [if_pos henough] at h
      cases h
      exact absurd rfl hst
    · rw [if_neg henough] at h
      cases h
      exact Or.inr ⟨hmax, henough, rfl, rfl, rfl⟩
  · rw [writeInode_too_long (Nat.not_le.mp hmax)] at h
    cases h
    exact Or.inl ⟨Nat.not_le.mp hmax, rfl, rfl, rfl⟩

/-- A write that took a slot shows in the block table. -/
theorem table_after_slots
    (hshort : ¬ newCount v offset size ≤ (freeSlots bs.dataBlockTable).length)
    (hsame : (storeAfter bs v buf offset size).dataBlockTable = bs.dataBlockTable) :
    freeSlots bs.dataBlockTable = [] := by
  cases hfree : freeSlots bs.dataBlockTable with
  | nil => rfl
  | cons k rest =>
      have hmem : k ∈ freeSlots bs.dataBlockTable := by
        rw [hfree]
        exact List.mem_cons_self ..
      have hnew : k ∈ newSlots bs v offset size := by
        unfold newSlots
        rw [List.take_of_length_le (by omega)]
        exact hmem
      have htaken : (storeAfter bs v buf offset size).dataBlockTable[k]? = some ⟨true, v.index⟩ := by
        show (occupySlots v.index bs.dataBlockTable (newSlots bs v offset size))[k]? = _
        rw [occupySlots_getElem? _ _ _ _ (freeSlots_lt hmem), if_pos hnew]
      rw [hsame] at htaken
      exact absurd ⟨v.index, htaken⟩ (isFree_iff.mp (mem_freeSlots.mp hmem)).2

end Slots

/-! ## Exactly the writes with nothing to undo fail cleanly -/

variable {s : State} {env : Env} {fd size : Nat} {buf : Bytes}

/-- A write with too few slots returns, and leaves the inode and the blocks
    `writeInode_after` describes. -/
theorem short_write_returns (hw : WellLinked s) (hs : Sound s.inodeTable s.blocks) {b a : Nat}
    {d : Descriptor} {v : Inode} (hr : Reaches s fd b d a v) (hmode : d.mode = .writeOnly)
    (env : Env) (hbuf : size ≤ buf.length) (hmax : u32 (d.offset + size) ≤ fileEnd)
    (hshort : ¬ newCount v d.offset size ≤ (freeSlots s.blocks.dataBlockTable).length) :
    ∃ s', writeInodeFd s env fd buf size = .ok (.failure, s') ∧
      s.inodeTable.Replaced s'.inodeTable a v
        (inodeAfter s.blocks (Inode.written v (env.clock 0)) d.offset size) ∧
      s'.blocks = storeAfter s.blocks v buf d.offset size := by
  have hin : BlocksInside s.blocks (Inode.written v (env.clock 0)) :=
    (hs.blocksInside (Table.get_ok.mp hr.file)).congr rfl
  have hafter := writeInode_after hin hbuf hmax
  have hshort' : ¬ newCount (Inode.written v (env.clock 0)) d.offset size
      ≤ (freeSlots s.blocks.dataBlockTable).length := hshort
  rw [if_neg hshort'] at hafter
  obtain ⟨s', hcall, hup, -, hblocks⟩ := hr.write_returns hw hmode hafter
  exact ⟨s', hcall, hup, hblocks⟩

theorem failsCleanly_iff (hw : WellLinked s) (hs : Sound s.inodeTable s.blocks)
    (hbuf : size ≤ buf.length) :
    FailsCleanly s env fd buf size ↔ NothingToUndo s fd buf size := by
  constructor
  · intro hclean b d a v hr hmode
    by_cases hmax : u32 (d.offset + size) ≤ fileEnd
    · by_cases henough : newCount v d.offset size ≤ (freeSlots s.blocks.dataBlockTable).length
      · exact Or.inr (Or.inl henough)
      · obtain ⟨s', hfail, hup, hblocks⟩ :=
          short_write_returns hw hs hr hmode env hbuf hmax henough
        have hleft := hclean _ s' hfail (by decide)
        have htable := hleft.table
        rw [hblocks] at htable
        have hnone := table_after_slots henough htable
        refine Or.inr (Or.inr ⟨hnone, ?_⟩)
        intro j hj
        -- the byte that was written is the one that was there
        obtain ⟨hstart, hdiv, -⟩ := head_in_block hj
        have hin := hs.blocksInside hup.old
        have hnew := byteAfter_start hin hbuf hstart hj hdiv
        obtain ⟨v', hv', -, hbytes⟩ := hleft.file b d a v hr
        have hv'' : (a, inodeAfter s.blocks (Inode.written v (env.clock 0)) d.offset size)
            ∈ s'.inodeTable.live := hup.mem.mpr (Or.inr rfl)
        obtain rfl := Heap.live_unique hv' hv''
        rw [← hbytes, hblocks]
        exact hnew
    · exact Or.inl (Nat.not_le.mp hmax)
  · intro hcond st s' h hst
    rcases writeInodeFd_cases h with rfl | ⟨b, d, a, v, st', v', offset', hr, hmode, hwrite, hiff,
      hup, hupd⟩
    · exact ⟨rfl, fun _ => Iff.rfl, fun b d a v hr =>
        ⟨v, Table.get_ok.mp hr.file, ⟨rfl, rfl, rfl⟩, fun _ => rfl⟩⟩
    · have hin : BlocksInside s.blocks (Inode.written v (env.clock 0)) :=
        (hs.blocksInside hup.old).congr rfl
      have hst' : st' ≠ .success := fun he => hst (hiff.mpr he)
      -- what is left of the call
      obtain ⟨hoffset, hsame, htable, hfile⟩ : offset' = d.offset ∧ SameFile v v' ∧
          s'.blocks.dataBlockTable = s.blocks.dataBlockTable ∧
          BlockStore.file s'.blocks = BlockStore.file s.blocks := by
        rcases writeInode_failed hin hbuf hwrite hst' with
          ⟨-, hv', hoffset, hblocks⟩ | ⟨hmax, hshort, hv', hoffset, hblocks⟩
        · rw [hv', hblocks]
          exact ⟨hoffset, ⟨rfl, rfl, rfl⟩, rfl, rfl⟩
        · rcases hcond b d a v hr hmode with hlong | henough | ⟨hnone, hbytes⟩
          · exact absurd hmax (Nat.not_le.mpr hlong)
          · exact absurd henough hshort
          · obtain ⟨htable, hdata, hfile⟩ := @after_without_slots s.blocks
              (Inode.written v (env.clock 0)) buf d.offset size hnone
            rw [hv', hblocks]
            exact ⟨hoffset, ⟨rfl, hdata, rfl⟩, htable, hfile.trans (updated_same hin hbytes)⟩
      subst hoffset
      refine ⟨htable, ?_, ?_⟩
      · intro p
        rw [hupd.mem]
        constructor
        · rintro (⟨-, hp⟩ | rfl)
          · exact hp
          · exact hupd.old
        · intro hp
          by_cases hpb : p.1 = b
          · obtain ⟨c, d'⟩ := p
            obtain rfl : c = b := hpb
            obtain rfl := Heap.live_unique hp hupd.old
            exact Or.inr rfl
          · exact Or.inl ⟨hpb, hp⟩
      · intro b' d' a' w hr'
        obtain ⟨rfl, rfl, rfl, rfl⟩ := hr.unique hr'
        refine ⟨v', hup.mem.mpr (Or.inr rfl), hsame, ?_⟩
        intro pos
        rw [hfile, hsame.blocks]

/-! ## A full block table -/

/-- A reachable state in which descriptor 0 stands at the start of a file that
    has its first block. -/
structure AtStart (s : State) : Prop where
  reachable : ∃ es, ServiceRun es s
  file : ∃ b d a v k, Reaches s 0 b d a v ∧ d.mode = .writeOnly ∧ d.offset = 0 ∧
    0 ≤ v.stat.stSize ∧ v.dataBlocks[0]? = some (k + 1)

/-- A write of 4097 bytes from there fills the first block again and takes one
    slot. -/
theorem one_new_block {v : Inode} {k : Nat} (hk : v.dataBlocks[0]? = some (k + 1)) :
    startsInside v 0 4097 = true ∧ newCount v 0 4097 = 1 := by
  have hstart : startsInside v 0 4097 = true := startsInside_iff.mpr ⟨k, hk, by decide⟩
  refine ⟨hstart, ?_⟩
  rw [newCount_inside hstart]
  decide

/-- A block of data and one byte more. -/
def blockAndByte (x : UInt8) : Bytes := List.replicate 4097 x

/-- After such a write and a seek back there is one free slot less. -/
theorem AtStart.next {s : State} (h : AtStart s) {n : Nat} {rest : List Nat}
    (hfree : freeSlots s.blocks.dataBlockTable = n :: rest) :
    ∃ s', AtStart s' ∧ freeSlots s'.blocks.dataBlockTable = rest := by
  obtain ⟨es, hr⟩ := h.reachable
  obtain ⟨b, d, a, v, k, hreach, hmode, hzero, hsize, hk⟩ := h.file
  have hw := wellLinked_of_run hr
  have hs := sound_of_run hr
  obtain ⟨⟨ld, rd, hfd⟩, ⟨li, ri, hf⟩, hi⟩ := hreach.found hw
  obtain ⟨hstart, hcount⟩ := one_new_block hk
  have hlen : (blockAndByte 65).length = 4097 := List.length_replicate
  -- the write
  obtain ⟨t, ht, hup⟩ := hw.inodes.put_split hf.split
    (Inode.writtenTo v s.blocks (stillEnv.clock 0) d.offset (blockAndByte 65).length)
  obtain ⟨td, htd, hupd⟩ := hw.descs.put_split hfd.split
    { d with offset := u32 (d.offset + (blockAndByte 65).length) }
  let s₁ : State := { s with
    inodeTable := t
    descriptorTable := td
    blocks := storeAfter s.blocks v (blockAndByte 65) d.offset (blockAndByte 65).length }
  have hwrite : writeInodeFd s stillEnv 0 (blockAndByte 65) (blockAndByte 65).length
      = .ok (.success, s₁) := by
    refine (writeInodeFd_eq hw hfd hf hi hmode (hs.blocksInside hf.mem) stillEnv _ ?_ s₁).mpr
      ⟨?_, t, td, ht, htd, rfl⟩
    · rw [hzero, hlen]
      decide
    · rw [hzero, hlen, hcount, hfree, List.length_cons]
      omega
  have hstep : Step s ⟨stillEnv, .write ⟨0, 0, 0, 4097, blockAndByte 65⟩, ⟨.success, .nothing⟩⟩ s₁ := by
    have hdata : slice (blockAndByte 65) 0 4097 = .ok (blockAndByte 65) := by
      rw [slice_of_le (by rw [hlen]), List.drop_zero, ← hlen, List.take_length]
    rw [hlen] at hwrite
    show (slice (blockAndByte 65) 0 4097 >>= _) = _
    rw [hdata, ok_bind]
    show (writeInodeFd s stillEnv 0 (blockAndByte 65) 4097 >>= _) = _
    rw [hwrite]
    rfl
  have hr₁ : ServiceRun _ s₁ := .next hr hstep
  have hw₁ := wellLinked_of_run hr₁
  have hfd₁ := hfd.updated hupd hfd.passes
  have hf₁ := hf.updated hup hf.passes
  -- the seek
  have hlong : ((0 : Nat) : Int) ≤ (Inode.writtenTo v s.blocks (stillEnv.clock 0) d.offset
      (blockAndByte 65).length).stat.stSize := Int.natCast_nonneg _
  obtain ⟨td₂, hupd₂, hseek⟩ := seekInodeFd_eq hw₁ hfd₁ hf₁ (hup.intact.mpr hi) hlong
  have hstep₂ : Step s₁ ⟨stillEnv, .seek ⟨0, 0, 0, 0⟩, ⟨.success, .nothing⟩⟩
      { s₁ with descriptorTable := td₂ } := by
    show (seekInodeFd s₁ 0 0 >>= _) = _
    rw [hseek]
    rfl
  have hr₂ : ServiceRun _ { s₁ with descriptorTable := td₂ } := .next hr₁ hstep₂
  have hfd₂ := hfd₁.updated hupd₂ hfd.passes
  refine ⟨{ s₁ with descriptorTable := td₂ }, ⟨⟨_, hr₂⟩, b, _, a, _, k,
    Reaches.of_found (wellLinked_of_run hr₂) (hup.intact.mpr hi) hfd₂ hf₁, hmode, rfl, hlong, ?_⟩, ?_⟩
  · show (inodeAfter s.blocks (Inode.written v (stillEnv.clock 0)) d.offset
      (blockAndByte 65).length).dataBlocks[0]? = some (k + 1)
    rw [hzero, hlen]
    exact inodeAfter_start (v := Inode.written v (stillEnv.clock 0)) hstart hk
  · show freeSlots (occupySlots v.index s.blocks.dataBlockTable
      (newSlots s.blocks v d.offset (blockAndByte 65).length)) = rest
    have hslots : newSlots s.blocks v d.offset (blockAndByte 65).length = [n] := by
      unfold newSlots
      rw [hzero, hlen, hcount, hfree]
      rfl
    rw [hslots]
    exact freeSlots_set hfree

/-- So all slots can be used up. -/
theorem AtStart.full (free : List Nat) : ∀ {s : State}, AtStart s →
    freeSlots s.blocks.dataBlockTable = free →
    ∃ s', AtStart s' ∧ freeSlots s'.blocks.dataBlockTable = [] := by
  induction free with
  | nil =>
      intro s h hfree
      exact ⟨s, h, hfree⟩
  | cons n rest ih =>
      intro s h hfree
      obtain ⟨s', h', hfree'⟩ := h.next hfree
      exact ih h' hfree'

/-- A file of 17 bytes and a descriptor that was taken back to its start. -/
theorem seventeen_sought : ∃ b d a v k,
    Reaches (replay (seventeenBytes ++ [.seek ⟨1, 1, 0, 0⟩])) 0 b d a v ∧ d.mode = .writeOnly ∧
      d.offset = 0 ∧ v.stat.stSize = 17 ∧ v.dataBlocks[0]? = some (k + 1) := by
  let rs := seventeenBytes ++ [.seek ⟨1, 1, 0, 0⟩]
  have hget : ((replay rs).inodeTable.get 0).isOk = true := by decide +kernel
  obtain ⟨v, hv⟩ := isOk_iff.mp hget
  have hall : ∀ p ∈ (replay rs).inodeTable.live, p.2.stat.stSize = 17 ∧
      p.2.dataBlocks[0]? = some 1 := by decide +kernel
  obtain ⟨hsize, hblock⟩ := hall _ (Table.get_ok.mp hv)
  have hd : (replay rs).descriptorTable.get 0 = .ok ⟨0, .writeOnly, 0, 0⟩ := by decide +kernel
  have hfd : (replay rs).descriptorTable.find (fun d => d.desc = 0) = .ok (some 0) := by
    decide +kernel
  have hfile : (replay rs).inodeTable.find (fun i => i.index = 0) = .ok (some 0) := by
    decide +kernel
  exact ⟨0, _, 0, v, 0, ⟨hfd, hd, hfile, hv⟩, rfl, rfl, hsize, hblock⟩

theorem atStart_seventeen : AtStart (replay (seventeenBytes ++ [.seek ⟨1, 1, 0, 0⟩])) := by
  obtain ⟨b, d, a, v, k, h, hmode, hzero, hsize, hblock⟩ := seventeen_sought
  have hnonneg : 0 ≤ v.stat.stSize := by rw [hsize]; decide
  exact ⟨run_replay (by decide +kernel), b, d, a, v, k, h, hmode, hzero, hnonneg, hblock⟩

/-- In every reachable state, for every descriptor, buffer and size, the write
    leaves the file alone when it fails exactly if it meets the condition. -/
theorem failed_write_atomic {es : List Event} {s : State} (hr : ServiceRun es s) (env : Env)
    (fd : Nat) {buf : Bytes} {size : Nat} (hbuf : size ≤ buf.length) :
    FailsCleanly s env fd buf size ↔ NothingToUndo s fd buf size :=
  failsCleanly_iff (wellLinked_of_run hr) (sound_of_run hr) hbuf

/-- With no slot left, a write that begins with what the first block contains
    fails behind it and changes nothing. -/
theorem failed_write_same : ∃ s s' buf, freeSlots s.blocks.dataBlockTable = [] ∧
    buf.length = 4097 ∧ writeInodeFd s stillEnv 0 buf 4097 = .ok (.failure, s') ∧
      LeftAlone s s' 0 := by
  obtain ⟨s, h, hfull⟩ := atStart_seventeen.full _ rfl
  obtain ⟨es, hr⟩ := h.reachable
  obtain ⟨b, d, a, v, k, hreach, hmode, hzero, -, hk⟩ := h.file
  have hw := wellLinked_of_run hr
  have hs := sound_of_run hr
  obtain ⟨hstart, hcount⟩ := one_new_block hk
  have hfile : dataBlockAllocSize * (k + 1) ≤ (BlockStore.file s.blocks).length :=
    (hs.blocksInside (Table.get_ok.mp hreach.file) 0 k hk).2
  -- the buffer is the first block and a byte behind it
  let block := ((BlockStore.file s.blocks).drop (dataBlockAllocSize * k)).take dataBlockAllocSize
  have hblock : block.length = dataBlockAllocSize := by
    rw [List.length_take, List.length_drop]
    simp only [dataBlockAllocSize] at hfile ⊢
    omega
  have hlen : (block ++ [65]).length = 4097 := by
    rw [List.length_append, hblock]
    rfl
  have hundo : NothingToUndo s 0 (block ++ [65]) 4097 := by
    intro b' d' a' v' hreach' _
    obtain ⟨rfl, rfl, rfl, rfl⟩ := hreach.unique hreach'
    refine Or.inr (Or.inr ⟨hfull, fun j hj => ?_⟩)
    rw [hzero, headSize_inside hstart] at hj
    have hj' : j < dataBlockAllocSize := by
      simp only [dataBlockAllocSize] at hj ⊢
      omega
    rw [hzero, Nat.zero_add, fileByte_eq (k := k) (by rw [Nat.div_eq_of_lt hj']; exact hk),
      Nat.mod_eq_of_lt hj', List.getElem?_append_left (by rw [hblock]; exact hj'),
      List.getElem?_take_of_lt hj', List.getElem?_drop]
  obtain ⟨s', hfail, -, -⟩ := short_write_returns hw hs hreach hmode stillEnv hlen.ge
    (by rw [hzero]; decide) (by rw [hzero, hcount, hfull]; decide)
  exact ⟨s, s', block ++ [65], hfull, hlen, hfail,
    (failed_write_atomic hr stillEnv 0 hlen.ge).mpr hundo _ s' hfail (by decide)⟩

/-- With no slot left, a write of 4097 bytes from the start of a file answers
    `FAILURE` and has replaced the first block. -/
theorem failed_write_not_undone : ¬ ∀ (es : List Event) (s : State) (env : Env) (fd : Nat)
    (buf : Bytes) (size : Nat), ServiceRun es s → size ≤ buf.length →
    FailsCleanly s env fd buf size := by
  intro hclaim
  obtain ⟨s, h, hfull⟩ := atStart_seventeen.full _ rfl
  obtain ⟨es, hr⟩ := h.reachable
  obtain ⟨b, d, a, v, k, hreach, hmode, hzero, -, hk⟩ := h.file
  obtain ⟨hstart, hcount⟩ := one_new_block hk
  -- whatever byte stands there, it would be the first of any buffer
  have hbyte : ∀ x, fileByte (BlockStore.file s.blocks) v.dataBlocks 0 = some x := by
    intro x
    have hbuf : 4097 ≤ (blockAndByte x).length := List.length_replicate.ge
    have hclean := hclaim es s stillEnv 0 (blockAndByte x) 4097 hr hbuf
    have hundo := (failsCleanly_iff (wellLinked_of_run hr) (sound_of_run hr) hbuf).mp hclean
    rcases hundo b d a v hreach hmode with hlong | henough | ⟨-, hall⟩
    · rw [hzero] at hlong
      exact absurd hlong (by decide)
    · rw [hzero, hcount, hfull] at henough
      exact absurd henough (by decide)
    · rw [hzero] at hall
      have hhead : 0 < headSize v 0 4097 := by
        rw [headSize_inside hstart]
        decide
      exact (hall 0 hhead).trans (List.getElem?_replicate_of_lt (by decide))
  exact absurd ((hbyte 65).symm.trans (hbyte 66)) (by decide)

end LibfsSpecs
