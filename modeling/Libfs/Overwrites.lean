import Libfs.ReadBack
import Libfs.ReadStops
import Libfs.WriteFrame
import Libfs.FailedWrites

/-! # Writing over a part of a file

    A write patches the block it starts in and gives every later position a
    fresh block, up to its end; and its end becomes the size of the file.  What
    stands before it is kept when the first block is there, or begins with the
    write; what stood behind it is cut off. -/

namespace LibfsSpecs

open LibfsHeap LibfsStdio LibfsCommon LibfsInode LibfsOperations LibfsRun

/-! ## The bytes before a write -/

section Before

variable {t : Table Inode} {bs : BlockStore} {a : Nat} {v : Inode} {buf : Bytes}
  {offset size : Nat}

/-- The positions before the block a write starts in keep their blocks. -/
theorem inodeAfter_before {i : Nat} (hi : i < offset / dataBlockAllocSize) :
    (inodeAfter bs v offset size).dataBlocks[i]? = v.dataBlocks[i]? := by
  by_cases hlt : i < fileMaxBlocks
  · show (putBlocks v.dataBlocks _ _)[i]? = _
    rw [putBlocks_getElem? _ _ _ _ hlt, if_neg]
    have := le_firstNew v offset size
    omega
  · rw [Vector.getElem?_eq_none (Nat.not_lt.mp hlt), Vector.getElem?_eq_none (Nat.not_lt.mp hlt)]

/-- The bytes in the blocks before are kept: no other position has the block a
    write starts in. -/
theorem byteAfter_before (hs : Sound t bs) (hv : (a, v) ∈ t.live) {pos : Nat}
    (hpos : pos / dataBlockAllocSize < offset / dataBlockAllocSize) :
    byteAfter bs v buf offset size pos = fileByte (BlockStore.file bs) v.dataBlocks pos := by
  have hsame : (inodeAfter bs v offset size).dataBlocks[pos / dataBlockAllocSize]?
      = v.dataBlocks[pos / dataBlockAllocSize]? := inodeAfter_before hpos
  unfold byteAfter fileByte
  rw [hsame]
  split
  · next k hk =>
      have href : Refs t a (pos / dataBlockAllocSize) k := ⟨v, hv, hk⟩
      have hlt := hs.inside k (hs.taken _ _ _ href)
      have hrem : pos % dataBlockAllocSize < dataBlockAllocSize := Nat.mod_lt _ (by decide)
      have hinside := hs.byte_inside hlt hrem
      obtain ⟨hlen, hbytes⟩ := updated_file (hs.blocksInside hv) buf offset size
      rw [file_storeAfter, List.getElem?_append_left (by rw [hlen]; exact hinside)]
      refine hbytes _ ?_
      rw [byte_div hrem]
      intro hstart
      have := (hs.once _ _ _ _ k href ⟨v, hv, hstart⟩).2
      omega
  · rfl

/-- So are the bytes before the write in a block that is patched. -/
theorem byteAfter_patched (hin : BlocksInside bs v) {pos : Nat} (hlt : pos < offset)
    (hpos : pos / dataBlockAllocSize = offset / dataBlockAllocSize)
    (hpresent : Present v offset) :
    byteAfter bs v buf offset size pos = fileByte (BlockStore.file bs) v.dataBlocks pos := by
  obtain ⟨k, hk⟩ := hpresent
  have hrem : pos % dataBlockAllocSize < offset % dataBlockAllocSize := by
    simp only [dataBlockAllocSize] at hpos ⊢
    omega
  have hoff : offset % dataBlockAllocSize < dataBlockAllocSize := Nat.mod_lt _ (by decide)
  have hkeep : (inodeAfter bs v offset size).dataBlocks[pos / dataBlockAllocSize]?
      = some (k + 1) := by
    rw [hpos]
    by_cases hstart : startsInside v offset size = true
    · exact inodeAfter_start hstart hk
    · -- the write has no block at all to touch
      have hrounds : rounds offset size = 0 := by
        by_contra hne
        exact hstart (startsInside_iff.mpr ⟨k, hk, Nat.pos_of_ne_zero hne⟩)
      have hnone : newSlots bs v offset size = [] := by
        refine List.eq_nil_of_length_eq_zero (Nat.le_zero.mp ?_)
        calc (newSlots bs v offset size).length
            ≤ newCount v offset size := newSlots_length_le ..
          _ ≤ rounds offset size := Nat.sub_le ..
          _ = 0 := hrounds
      show (putBlocks v.dataBlocks _ _)[_]? = _
      rw [hnone]
      exact hk
  have hfile : dataBlockAllocSize * (k + 1) ≤ (BlockStore.file bs).length := (hin _ k hk).2
  rw [Nat.mul_succ] at hfile
  have hlen := (updated_file hin buf offset size).1
  unfold byteAfter
  rw [fileByte_eq hkeep, fileByte_eq (k := k) (by rw [hpos]; exact hk), file_storeAfter,
    List.getElem?_append_left (by omega)]
  by_cases hstart : startsInside v offset size = true
  · rw [updated_file_eq hin hstart hk, fwriteAt_getElem? (headSize_fits hin buf hstart hk).2,
      if_neg (by omega)]
  · have hsame : updated bs v buf offset size = bs := if_neg hstart
    rw [hsame]

/-- A byte before the write is kept if the write starts at the beginning of a
    block or in a block that is there. -/
theorem byteAfter_kept (hs : Sound t bs) (hv : (a, v) ∈ t.live) (hoff : offset < fileEnd ∨
    offset % dataBlockAllocSize = 0) {pos : Nat} (hlt : pos < offset)
    (hstart : offset % dataBlockAllocSize = 0 ∨ ¬ Missing v offset) :
    byteAfter bs v buf offset size pos = fileByte (BlockStore.file bs) v.dataBlocks pos := by
  have hle : pos / dataBlockAllocSize ≤ offset / dataBlockAllocSize :=
    Nat.div_le_div_right (Nat.le_of_lt hlt)
  rcases Nat.lt_or_eq_of_le hle with hbefore | hsame
  · exact byteAfter_before hs hv hbefore
  · have hunaligned : offset % dataBlockAllocSize ≠ 0 := by
      simp only [dataBlockAllocSize] at hsame ⊢
      omega
    refine byteAfter_patched (hs.blocksInside hv) hlt hsame ?_
    exact present_of_not_missing (hoff.resolve_right hunaligned)
      (hstart.resolve_left hunaligned)

/-- A write that starts inside a missing block gives it a block: the byte
    before the write was not there, and its position has a block now. -/
theorem hole_before_filled (buf : Bytes) (hmiss : Missing v offset)
    (hunaligned : offset % dataBlockAllocSize ≠ 0) (hlt : offset + size < 4294967296)
    (hmax : u32 (offset + size) ≤ fileEnd)
    (henough : newCount v offset size ≤ (freeSlots bs.dataBlockTable).length) :
    fileByte (BlockStore.file bs) v.dataBlocks (offset - 1) = none ∧ ∃ k,
      (inodeAfter bs v offset size).dataBlocks[(offset - 1) / dataBlockAllocSize]?
        = some (k + 1) := by
  have hu : u32 (offset + size) = offset + size := u32_of_lt hlt
  have hlast : (offset - 1) / dataBlockAllocSize = offset / dataBlockAllocSize ∧ 0 < offset := by
    simp only [dataBlockAllocSize] at hunaligned ⊢
    omega
  obtain ⟨hdiv, hpos⟩ := hlast
  have hstart : ¬ startsInside v offset size = true := startsInside_hole hmiss
  have hround : 0 < rounds offset size := by
    have htotal := lt_totalBlocks (show offset - 1 < offset + size by omega)
    unfold rounds
    rw [hu]
    omega
  have hcount := newCount_outside hstart
  have hfirst := firstNew_outside hstart
  constructor
  · unfold fileByte
    rw [hdiv, hmiss]
  · obtain ⟨k, -, hblock, -⟩ :=
      byteAfter_new buf (offset - 1) hmax henough (by omega) (by omega)
    exact ⟨k, hblock⟩

end Before

/-! ## Overwriting through a descriptor -/

/-- After a write of `size` bytes at `offset` the size of the file at `a` is
    what it was or the end of the write, whichever is larger, and the other
    bytes below the old size are what they were. -/
def RestKept (s s' : State) (a : Nat) (v : Inode) (offset size : Nat) : Prop :=
  ∃ v', (a, v') ∈ s'.inodeTable.live ∧
    v'.stat.stSize = max v.stat.stSize ((offset + size : Nat) : Int) ∧
    ∀ pos : Nat, (pos : Int) < v.stat.stSize → pos < offset ∨ offset + size ≤ pos →
      fileByte (BlockStore.file s'.blocks) v'.dataBlocks pos
        = fileByte (BlockStore.file s.blocks) v.dataBlocks pos

/-- The writes that succeed only with the rest kept: they fail; or their end
    does not wrap and is not before the end of the file, and they start at the
    beginning of a block or in a block that is there. -/
def KeepsTheRest (s : State) (d : Descriptor) (v : Inode) (size : Nat) : Prop :=
  d.mode = .readOnly ∨ fileEnd < u32 (d.offset + size) ∨
    (freeSlots s.blocks.dataBlockTable).length < newCount v d.offset size ∨
    (d.offset + size < 4294967296 ∧ v.stat.stSize ≤ ((d.offset + size : Nat) : Int) ∧
      (d.offset % dataBlockAllocSize = 0 ∨ ¬ Missing v d.offset))

section Descriptors

variable {s s' : State} {env : Env} {fd size b a : Nat} {buf : Bytes} {d : Descriptor} {v : Inode}

/-- What a successful write has done. -/
theorem write_succeeded (hw : WellLinked s) (hs : Sound s.inodeTable s.blocks)
    (h : Reaches s fd b d a v) (hbuf : size ≤ buf.length)
    (hcall : writeInodeFd s env fd buf size = .ok (.success, s')) :
    d.mode = .writeOnly ∧ u32 (d.offset + size) ≤ fileEnd ∧
      newCount v d.offset size ≤ (freeSlots s.blocks.dataBlockTable).length ∧
      (a, Inode.writtenTo v s.blocks (env.clock 0) d.offset size) ∈ s'.inodeTable.live ∧
      s'.blocks = storeAfter s.blocks v buf d.offset size := by
  have hin : BlocksInside s.blocks (Inode.written v (env.clock 0)) :=
    (hs.blocksInside (Table.get_ok.mp h.file)).congr rfl
  rcases writeInodeFd_ok hw hcall with
    ⟨ld, rd, b', d', li, ri, a', v₁, st', v', offset, t, td, bs, hfd, hmode, hf, hwrite, hst, hup,
      hupd, rfl⟩ | ⟨hne, -⟩
  · obtain ⟨-, -, hi⟩ := h.found hw
    obtain ⟨rfl, rfl, rfl, rfl⟩ := h.unique (Reaches.of_found hw hi hfd hf)
    obtain rfl := hst.mp rfl
    by_cases hmax : u32 (d'.offset + size) ≤ fileEnd
    · rw [writeInode_after hin hbuf hmax] at hwrite
      by_cases henough : newCount (Inode.written v₁ (env.clock 0)) d'.offset size
          ≤ (freeSlots s.blocks.dataBlockTable).length
      · rw [if_pos henough] at hwrite
        cases hwrite
        exact ⟨hmode, hmax, henough, hup.mem.mpr (Or.inr rfl), rfl⟩
      · rw [if_neg henough] at hwrite
        exact nomatch hwrite
    · rw [writeInode_too_long (Nat.not_le.mp hmax)] at hwrite
      exact nomatch hwrite
  · exact absurd rfl hne

/-- A write that can succeed does. -/
theorem write_succeeds (hw : WellLinked s) (hs : Sound s.inodeTable s.blocks)
    (h : Reaches s fd b d a v) (env : Env) (hbuf : size ≤ buf.length) (hmode : d.mode = .writeOnly)
    (hmax : u32 (d.offset + size) ≤ fileEnd)
    (henough : newCount v d.offset size ≤ (freeSlots s.blocks.dataBlockTable).length) :
    ∃ s', writeInodeFd s env fd buf size = .ok (.success, s') := by
  have hin : BlocksInside s.blocks (Inode.written v (env.clock 0)) :=
    (hs.blocksInside (Table.get_ok.mp h.file)).congr rfl
  have hafter := writeInode_after hin hbuf hmax
  have henough' : newCount (Inode.written v (env.clock 0)) d.offset size
      ≤ (freeSlots s.blocks.dataBlockTable).length := henough
  rw [if_pos henough'] at hafter
  obtain ⟨s', hcall, -⟩ := h.write_returns hw hmode hafter
  exact ⟨s', hcall⟩

/-- The size a write sets is its end: with the rest kept, the end has not
    wrapped and is not before the end of the file. -/
theorem RestKept.end_kept (hw : WellLinked s) (hs : Sound s.inodeTable s.blocks)
    (h : Reaches s fd b d a v) (hbuf : size ≤ buf.length)
    (hcall : writeInodeFd s env fd buf size = .ok (.success, s'))
    (hkept : RestKept s s' a v d.offset size) :
    d.offset + size < 4294967296 ∧ v.stat.stSize ≤ ((d.offset + size : Nat) : Int) := by
  obtain ⟨-, -, -, hv', -⟩ := write_succeeded hw hs h hbuf hcall
  obtain ⟨v', hlive, hsize, -⟩ := hkept
  obtain rfl := Heap.live_unique hlive hv'
  have hend : ((u32 (d.offset + size) : Nat) : Int)
      = max v.stat.stSize ((d.offset + size : Nat) : Int) := hsize
  have hwrap := u32_lt (d.offset + size)
  have hlt : d.offset + size < 4294967296 := by omega
  rw [u32_of_lt hlt] at hend
  exact ⟨hlt, by omega⟩

/-- A write inside a missing block changes the byte before it. -/
theorem RestKept.start_present (hw : WellLinked s) (hs : Sound s.inodeTable s.blocks)
    (h : Reaches s fd b d a v) (ho : (d.offset : Int) ≤ v.stat.stSize) (hbuf : size ≤ buf.length)
    (hcall : writeInodeFd s env fd buf size = .ok (.success, s'))
    (hkept : RestKept s s' a v d.offset size) :
    d.offset % dataBlockAllocSize = 0 ∨ ¬ Missing v d.offset := by
  obtain ⟨hlt, -⟩ := hkept.end_kept hw hs h hbuf hcall
  obtain ⟨-, hmax, henough, hv', -⟩ := write_succeeded hw hs h hbuf hcall
  obtain ⟨v', hlive, -, hbytes⟩ := hkept
  obtain rfl := Heap.live_unique hlive hv'
  by_contra hhole
  obtain ⟨hunaligned, hpresent⟩ := not_or.mp hhole
  obtain ⟨hnone, k, hblock⟩ :=
    hole_before_filled buf (not_not.mp hpresent) hunaligned hlt hmax henough
  have hpos : 0 < d.offset := by
    simp only [dataBlockAllocSize] at hunaligned
    omega
  have hsame := hbytes (d.offset - 1) (by omega) (Or.inl (by omega))
  have hsound := (write_touches_own_file hs hbuf hcall).1
  have hrem : (d.offset - 1) % dataBlockAllocSize < dataBlockAllocSize :=
    Nat.mod_lt _ (by decide)
  have hinside := hsound.byte_inside (hsound.inside k (hsound.taken _ _ k ⟨_, hv', hblock⟩)) hrem
  change fileByte (BlockStore.file s'.blocks) (inodeAfter s.blocks v d.offset size).dataBlocks
    (d.offset - 1) = _ at hsame
  rw [hnone, fileByte_eq hblock, List.getElem?_eq_none_iff] at hsame
  exact absurd hinside (Nat.not_lt.mpr hsame)

/-- A successful write to the end of the file or behind it keeps the rest when
    it starts at the beginning of a block or in a block that is there. -/
theorem restKept_of_start (hw : WellLinked s) (hs : Sound s.inodeTable s.blocks)
    (h : Reaches s fd b d a v) (hbuf : size ≤ buf.length)
    (hcall : writeInodeFd s env fd buf size = .ok (.success, s'))
    (hlt : d.offset + size < 4294967296)
    (hsize : v.stat.stSize ≤ ((d.offset + size : Nat) : Int))
    (hstart : d.offset % dataBlockAllocSize = 0 ∨ ¬ Missing v d.offset) :
    RestKept s s' a v d.offset size := by
  have hv : (a, v) ∈ s.inodeTable.live := Table.get_ok.mp h.file
  obtain ⟨-, hmax, -, hv', hblocks⟩ := write_succeeded hw hs h hbuf hcall
  have hu : u32 (d.offset + size) = d.offset + size := u32_of_lt hlt
  refine ⟨_, hv', ?_, ?_⟩
  · show ((u32 (d.offset + size) : Nat) : Int) = _
    rw [hu, max_eq_right hsize]
  · intro pos hpos hother
    have hbefore : pos < d.offset := by omega
    have hfit : d.offset < fileEnd ∨ d.offset % dataBlockAllocSize = 0 := by
      simp only [fileEnd, dataBlockAllocSize, fileMaxBlocks] at hmax ⊢
      omega
    rw [hblocks]
    exact byteAfter_kept hs hv hfit hbefore hstart

/-- In every reachable state, for every descriptor positioned inside its file
    and every buffer, a write that succeeds keeps the rest of the file exactly
    if it meets the condition. -/
theorem overwrite_keeps_rest_iff {es : List Event} (hr : ServiceRun es s) (env : Env)
    (h : Reaches s fd b d a v) (ho : (d.offset : Int) ≤ v.stat.stSize) (hbuf : size ≤ buf.length) :
    (∀ s', writeInodeFd s env fd buf size = .ok (.success, s') →
        RestKept s s' a v d.offset size) ↔ KeepsTheRest s d v size := by
  have hw := wellLinked_of_run hr
  have hs := sound_of_run hr
  constructor
  · intro hkept
    by_contra hcond
    unfold KeepsTheRest at hcond
    simp only [not_or, Nat.not_lt] at hcond
    obtain ⟨hmode, hmax, henough, hcond⟩ := hcond
    have hwrite : d.mode = .writeOnly := by
      cases hm : d.mode with
      | readOnly => exact absurd hm hmode
      | writeOnly => rfl
    obtain ⟨s', hcall⟩ := write_succeeds hw hs h env hbuf hwrite hmax henough
    obtain ⟨hlt, hsize⟩ := (hkept s' hcall).end_kept hw hs h hbuf hcall
    exact hcond ⟨hlt, hsize, (hkept s' hcall).start_present hw hs h ho hbuf hcall⟩
  · intro hcond s' hcall
    obtain ⟨hmode, hmax, henough, -⟩ := write_succeeded hw hs h hbuf hcall
    rcases hcond with hread | hlong | hshort | ⟨hlt, hsize, hstart⟩
    · rw [hmode] at hread
      exact nomatch hread
    · exact absurd hmax (Nat.not_le.mpr hlong)
    · exact absurd henough (Nat.not_le.mpr hshort)
    · exact restKept_of_start hw hs h hbuf hcall hlt hsize hstart

end Descriptors

/-- Behind 17 bytes one more is added. -/
theorem overwrite_keeps_seventeen : ∃ b d a v, Reaches (replay seventeenBytes) 0 b d a v ∧
    ((∀ s', writeInodeFd (replay seventeenBytes) stillEnv 0 [66] 1 = .ok (.success, s') →
        RestKept (replay seventeenBytes) s' a v d.offset 1) ↔
      KeepsTheRest (replay seventeenBytes) d v 1) := by
  obtain ⟨es, hr⟩ := run_replay seventeen_returns
  obtain ⟨b, d, a, v, h, hoff, hsize, -⟩ := reaches_seventeen
  have ho : (d.offset : Int) ≤ v.stat.stSize := by
    rw [hoff, hsize]
    decide
  exact ⟨b, d, a, v, h,
    overwrite_keeps_rest_iff hr stillEnv h ho (show 1 ≤ [66].length from Nat.le_refl 1)⟩

/-- A byte at the start of a file with a first block needs no slot. -/
theorem no_new_block {v : Inode} {k : Nat} (hk : v.dataBlocks[0]? = some (k + 1)) :
    newCount v 0 1 = 0 := by
  have hstart : startsInside v 0 1 = true := startsInside_iff.mpr ⟨k, hk, by decide⟩
  rw [newCount_inside hstart]
  decide

/-- One byte written at the start of 17 leaves a file of one byte. -/
theorem overwrite_cuts_off : ¬ ∀ (es : List Event) (s : State) (env : Env) (fd size b a : Nat)
    (buf : Bytes) (d : Descriptor) (v : Inode), ServiceRun es s → Reaches s fd b d a v →
    (d.offset : Int) ≤ v.stat.stSize → size ≤ buf.length →
    ∀ s', writeInodeFd s env fd buf size = .ok (.success, s') → RestKept s s' a v d.offset size := by
  intro hclaim
  have hret : returns (seventeenBytes ++ [.seek ⟨1, 1, 0, 0⟩]) = true := by decide +kernel
  obtain ⟨es, hr⟩ := run_replay hret
  have hw := wellLinked_of_run hr
  obtain ⟨b, d, a, v, k, h, hmode, hoff, hsize, hblock⟩ := seventeen_sought
  have hs := sound_of_run hr
  obtain ⟨s', hcall⟩ := write_succeeds hw hs h stillEnv (show 1 ≤ [66].length from Nat.le_refl 1)
    hmode (by rw [hoff]; decide) (by rw [hoff, no_new_block hblock]; exact Nat.zero_le _)
  obtain ⟨-, -, -, hv', -⟩ := write_succeeded hw hs h (Nat.le_refl 1) hcall
  obtain ⟨v', hlive, hmax, -⟩ := hclaim es _ _ _ 1 b a [66] d v hr h (by rw [hoff, hsize]; decide)
    (Nat.le_refl 1) s' hcall
  obtain rfl := Heap.live_unique hlive hv'
  have hend : ((u32 (d.offset + 1) : Nat) : Int) = max v.stat.stSize ((d.offset + 1 : Nat) : Int) :=
    hmax
  rw [hoff, hsize] at hend
  exact absurd hend (by decide)

end LibfsSpecs
