import Libfs.Disk

/-! # Is written data read back?

    A new block is appended to the data file whatever slot it is given, but it
    is read and updated at the place of its slot.  Data is read back as long
    as the lowest free slot is the one behind the last block of the file; a
    slot that is free because its file was unlinked lies before it, and the
    reader gets what the unlinked file left there. -/

namespace LibfsSpecs

open LibfsHeap LibfsStdio LibfsCommon LibfsInode LibfsOperations LibfsRun

/-! ## Slots that are taken in file order -/

/-- When every slot before `n` is taken and none behind it, the lowest free
    slots are `n`, `n + 1` and so on. -/
theorem lowest_next (ks : List Nat) :
    ∀ (tbl : Vector DataBlock numOfDataBlocks) (n : Nat),
      (∀ b, b < numOfDataBlocks → (isFree tbl b = true ↔ n ≤ b)) →
      ks = (freeSlots tbl).take ks.length → ∀ i, i < ks.length → ks[i]? = some (n + i) := by
  induction ks with
  | nil =>
      intro tbl n _ _ i hi
      exact absurd hi (Nat.not_lt_zero i)
  | cons k ks ih =>
      intro tbl n hfree hlow i hi
      cases hslots : freeSlots tbl with
      | nil =>
          rw [hslots] at hlow
          exact nomatch hlow
      | cons k' rest =>
          rw [hslots, List.length_cons, List.take_succ_cons] at hlow
          obtain ⟨rfl, hks⟩ := List.cons.inj hlow
          have hkmem : k ∈ freeSlots tbl := by rw [hslots]; exact List.mem_cons_self ..
          have hklt := freeSlots_lt hkmem
          have hnk : n ≤ k := (hfree k hklt).mp (mem_freeSlots.mp hkmem)
          have hkn : k = n := by
            have hnmem : n ∈ freeSlots tbl :=
              mem_freeSlots.mpr ((hfree n (by omega)).mpr (Nat.le_refl n))
            have hsort := freeSlots_sorted tbl
            rw [hslots] at hnmem hsort
            rcases List.mem_cons.mp hnmem with he | hr
            · exact he.symm
            · have := (List.pairwise_cons.mp hsort).1 n hr
              omega
          subst hkn
          cases i with
          | zero => rfl
          | succ i =>
              rw [List.getElem?_cons_succ, ih (tbl.setIfInBounds k ⟨true, 0⟩) (k + 1) ?_
                (by rw [freeSlots_set hslots]; exact hks) i (Nat.lt_of_succ_lt_succ hi),
                Nat.add_assoc, Nat.add_comm 1 i]
              · intro b hb
                by_cases hbk : b = k
                · subst hbk
                  unfold isFree
                  rw [Vector.getElem?_setIfInBounds_self_of_lt hb]
                  simp
                · have h := hfree b hb
                  unfold isFree at h ⊢
                  rw [Vector.getElem?_setIfInBounds_ne (fun e => hbk e.symm), h]
                  omega

/-- The lowest free slot is at most the one behind the last block. -/
theorem Sound.lowest_le {t : Table Inode} {bs : BlockStore} (hs : Sound t bs) {k : Nat}
    {rest : List Nat} (h : freeSlots bs.dataBlockTable = k :: rest) : k ≤ fileBlocks bs := by
  by_contra hgt
  have hkmem : k ∈ freeSlots bs.dataBlockTable := by rw [h]; exact List.mem_cons_self ..
  have hlt := freeSlots_lt hkmem
  have hfree : isFree bs.dataBlockTable (fileBlocks bs) = true :=
    isFree_iff.mpr ⟨by omega, fun ht => Nat.lt_irrefl _ (hs.inside _ ht)⟩
  have hmem := mem_freeSlots.mpr hfree
  have hsort := freeSlots_sorted bs.dataBlockTable
  rw [h] at hmem hsort
  rcases List.mem_cons.mp hmem with he | hr
  · omega
  · have := (List.pairwise_cons.mp hsort).1 _ hr
    omega

/-- If the lowest free slot is the one behind the last block, so are the next
    ones. -/
theorem Sound.next_slots {t : Table Inode} {bs : BlockStore} (hs : Sound t bs)
    (hfirst : firstFree bs.dataBlockTable = some (fileBlocks bs)) (v : Inode) (offset size : Nat)
    {i : Nat} (hi : i < (newSlots bs v offset size).length) :
    (newSlots bs v offset size)[i]? = some (fileBlocks bs + i) := by
  rw [firstFree_eq] at hfirst
  refine lowest_next _ bs.dataBlockTable _ ?_ ?_ i hi
  · intro b hb
    constructor
    · intro hfree
      cases hslots : freeSlots bs.dataBlockTable with
      | nil =>
          rw [hslots] at hfirst
          exact nomatch hfirst
      | cons k rest =>
          have hmem := mem_freeSlots.mpr hfree
          have hsort := freeSlots_sorted bs.dataBlockTable
          rw [hslots] at hfirst hmem hsort
          cases hfirst
          rcases List.mem_cons.mp hmem with he | hr
          · exact Nat.le_of_eq he.symm
          · exact Nat.le_of_lt ((List.pairwise_cons.mp hsort).1 b hr)
    · intro hle
      exact isFree_iff.mpr ⟨hb, fun ht => absurd (hs.inside b ht) (Nat.not_lt.mpr hle)⟩
  · unfold newSlots
    rw [List.length_take, ← List.take_take, List.take_length]

/-! ## Where a position of the write ends up -/

section Positions

variable {v : Inode} {offset size : Nat}

/-- A write that touches a byte touches its block. -/
theorem rounds_pos (hfit : offset + size ≤ dataBlockAllocSize * fileMaxBlocks) (hn : 0 < size) :
    rounds offset size = totalBlocks (offset + size) - offset / dataBlockAllocSize ∧
      offset / dataBlockAllocSize < totalBlocks (offset + size) := by
  have hu : u32 (offset + size) = offset + size := by
    apply u32_of_lt
    simp only [dataBlockAllocSize, fileMaxBlocks] at hfit
    omega
  refine ⟨?_, lt_totalBlocks (by omega)⟩
  unfold rounds
  rw [hu]

/-- A byte of the write stands in the block it starts in or in a new one. -/
theorem position_cases (hfit : offset + size ≤ dataBlockAllocSize * fileMaxBlocks) {j : Nat}
    (hj : j < size) :
    (startsInside v offset size = true ∧ j < headSize v offset size ∧
        (offset + j) / dataBlockAllocSize = offset / dataBlockAllocSize) ∨
      (firstNew v offset size ≤ (offset + j) / dataBlockAllocSize ∧
        (offset + j) / dataBlockAllocSize < firstNew v offset size + newCount v offset size) := by
  obtain ⟨hrounds, hlt⟩ := rounds_pos hfit (by omega)
  have hpos := lt_totalBlocks (show offset + j < offset + size by omega)
  by_cases hin : startsInside v offset size = true
  · rw [firstNew_inside hin, newCount_inside hin, headSize_inside hin]
    by_cases hfirst : (offset + j) / dataBlockAllocSize = offset / dataBlockAllocSize
    · refine Or.inl ⟨hin, ?_, hfirst⟩
      simp only [dataBlockAllocSize] at hfirst ⊢
      omega
    · refine Or.inr ⟨?_, by omega⟩
      simp only [dataBlockAllocSize] at hfirst ⊢
      omega
  · rw [firstNew_outside hin, newCount_outside hin]
    refine Or.inr ⟨?_, by omega⟩
    exact Nat.div_le_div_right (Nat.le_add_right ..)

/-- In a write that starts inside a block or at the start of one, the bytes of
    the new blocks follow those of the first one. -/
theorem position_tail (hstart : offset % dataBlockAllocSize = 0 ∨ startsInside v offset size = true)
    {j : Nat} (hj : j < size) (hnew : firstNew v offset size ≤ (offset + j) / dataBlockAllocSize) :
    j = headSize v offset size
      + (dataBlockAllocSize * ((offset + j) / dataBlockAllocSize - firstNew v offset size)
        + (offset + j) % dataBlockAllocSize) := by
  by_cases hin : startsInside v offset size = true
  · rw [firstNew_inside hin] at hnew ⊢
    rw [headSize_inside hin]
    simp only [dataBlockAllocSize] at hnew ⊢
    omega
  · rw [firstNew_outside hin] at hnew ⊢
    rw [headSize_outside hin]
    rcases hstart with h0 | h0
    · simp only [dataBlockAllocSize] at hnew h0 ⊢
      omega
    · exact absurd h0 hin

end Positions

/-! ## The bytes a reader gets -/

/-- The byte at a position of the file after a write. -/
def byteAfter (bs : BlockStore) (v : Inode) (buf : Bytes) (offset size pos : Nat) : Option UInt8 :=
  fileByte (BlockStore.file (storeAfter bs v buf offset size))
    (inodeAfter bs v offset size).dataBlocks pos

section Bytes

variable {t : Table Inode} {bs : BlockStore} {a : Nat} {v : Inode} {buf : Bytes}
  {offset size : Nat}

/-- The block the write starts in stays where it is. -/
theorem inodeAfter_start (hs : startsInside v offset size = true) {k : Nat}
    (hk : v.dataBlocks[offset / dataBlockAllocSize]? = some (k + 1)) :
    (inodeAfter bs v offset size).dataBlocks[offset / dataBlockAllocSize]? = some (k + 1) := by
  have hlt : offset / dataBlockAllocSize < fileMaxBlocks := by
    by_contra hge
    rw [Vector.getElem?_eq_none (by omega)] at hk
    exact nomatch hk
  have hfirst := firstNew_inside hs
  show (putBlocks v.dataBlocks _ _)[_]? = _
  rw [putBlocks_getElem? _ _ _ _ hlt, if_neg (by omega)]
  exact hk

/-- In the block the write starts in stand the first bytes of the data. -/
theorem byteAfter_start (hin : BlocksInside bs v) (hbuf : size ≤ buf.length)
    (hs : startsInside v offset size = true) {j : Nat} (hj : j < headSize v offset size)
    (hpos : (offset + j) / dataBlockAllocSize = offset / dataBlockAllocSize) :
    byteAfter bs v buf offset size (offset + j) = buf[j]? := by
  obtain ⟨k, hk, -⟩ := startsInside_iff.mp hs
  obtain ⟨hblock, hfit⟩ := headSize_fits hin buf hs hk
  have hkeep : (inodeAfter bs v offset size).dataBlocks[(offset + j) / dataBlockAllocSize]?
      = some (k + 1) := by
    rw [hpos]
    exact inodeAfter_start hs hk
  have hmod : (offset + j) % dataBlockAllocSize = offset % dataBlockAllocSize + j := by
    simp only [dataBlockAllocSize] at hpos ⊢
    omega
  have hhead := headSize_le v offset size
  have htake : (buf.take (headSize v offset size)).length = headSize v offset size := by
    rw [List.length_take]
    omega
  have hlen := (updated_file hin buf offset size).1
  unfold byteAfter
  rw [fileByte_eq hkeep, hmod, file_storeAfter, List.getElem?_append_left (by omega),
    updated_file_eq hin hs hk, fwriteAt_getElem? hfit, if_pos (by omega), ← Nat.add_assoc,
    Nat.add_sub_cancel_left, List.getElem?_take_of_lt hj]

/-- A position behind it is in the block of one of the new slots. -/
theorem byteAfter_new (buf : Bytes) (pos : Nat)
    (hmax : u32 (offset + size) ≤ dataBlockAllocSize * fileMaxBlocks)
    (henough : newCount v offset size ≤ (freeSlots bs.dataBlockTable).length)
    (h1 : firstNew v offset size ≤ pos / dataBlockAllocSize)
    (h2 : pos / dataBlockAllocSize < firstNew v offset size + newCount v offset size) :
    ∃ k, (newSlots bs v offset size)[pos / dataBlockAllocSize - firstNew v offset size]? = some k ∧
      (inodeAfter bs v offset size).dataBlocks[pos / dataBlockAllocSize]? = some (k + 1) ∧
      byteAfter bs v buf offset size pos = (BlockStore.file (storeAfter bs v buf offset size))[
        dataBlockAllocSize * k + pos % dataBlockAllocSize]? := by
  have hlen := newSlots_length.mpr henough
  have hfits : firstNew v offset size + newCount v offset size ≤ fileMaxBlocks := by
    rcases newCount_fits (v := v) hmax with hf | hz
    · exact hf
    · omega
  obtain ⟨k, hk⟩ : ∃ k, (newSlots bs v offset size)[
      pos / dataBlockAllocSize - firstNew v offset size]? = some k :=
    ⟨_, List.getElem?_eq_getElem (by omega)⟩
  have hblock : (inodeAfter bs v offset size).dataBlocks[pos / dataBlockAllocSize]?
      = some (k + 1) := by
    show (putBlocks v.dataBlocks _ _)[_]? = _
    rw [putBlocks_getElem? _ _ _ _ (by omega), if_pos ⟨h1, by omega⟩, hk]
    rfl
  refine ⟨k, hk, hblock, ?_⟩
  unfold byteAfter
  rw [fileByte_eq hblock]

/-- Every byte of a write that had slots enough is in some block. -/
theorem inodeAfter_named (hfit : offset + size ≤ dataBlockAllocSize * fileMaxBlocks)
    (henough : newCount v offset size ≤ (freeSlots bs.dataBlockTable).length) {j : Nat}
    (hj : j < size) :
    ∃ k, (inodeAfter bs v offset size).dataBlocks[(offset + j) / dataBlockAllocSize]?
      = some (k + 1) := by
  rcases position_cases hfit hj with ⟨hstart, -, hpos⟩ | ⟨h1, h2⟩
  · obtain ⟨k, hk, -⟩ := startsInside_iff.mp hstart
    exact ⟨k, by rw [hpos]; exact inodeAfter_start hstart hk⟩
  · obtain ⟨k, -, hblock, -⟩ := byteAfter_new [] _ (Nat.le_trans (Nat.mod_le _ _) hfit)
      henough h1 h2
    exact ⟨k, hblock⟩

/-- Behind the old end of the file stand the bytes of the new blocks. -/
theorem byte_behind (buf : Bytes) (offset size : Nat) (hs : Sound t bs) (hin : BlocksInside bs v)
    {i r : Nat}
    (hr : dataBlockAllocSize * i + r < dataBlockAllocSize * (newSlots bs v offset size).length) :
    (BlockStore.file (storeAfter bs v buf offset size))[
        dataBlockAllocSize * (fileBlocks bs + i) + r]?
      = if dataBlockAllocSize * i + r < (tailData v buf offset size).length then
          (tailData v buf offset size)[dataBlockAllocSize * i + r]?
        else some 0 := by
  have hlen := (updated_file hin buf offset size).1
  rw [hs.whole] at hlen
  have hsub : dataBlockAllocSize * (fileBlocks bs + i) + r
      - (BlockStore.file (updated bs v buf offset size)).length = dataBlockAllocSize * i + r := by
    rw [hlen, Nat.mul_add]
    omega
  rw [file_storeAfter, List.getElem?_append_right (by rw [hlen, Nat.mul_add]; omega), hsub,
    paddedBlocks_getElem? _ _ _ hr]

/-- Before it stands what stood there, the block of the write's start apart. -/
theorem byte_before (hs : Sound t bs) (hv : (a, v) ∈ t.live) {k r : Nat}
    (hr : r < dataBlockAllocSize) (hk : k < fileBlocks bs) (hfree : ¬ Taken bs k) :
    (BlockStore.file (storeAfter bs v buf offset size))[dataBlockAllocSize * k + r]?
      = (BlockStore.file bs)[dataBlockAllocSize * k + r]? := by
  obtain ⟨hlen, hbytes⟩ := updated_file (hs.blocksInside hv) buf offset size
  have hlt := hs.byte_inside hk hr
  rw [file_storeAfter, List.getElem?_append_left (by rw [hlen]; exact hlt)]
  refine hbytes _ ?_
  rw [byte_div hr]
  intro hstart
  exact hfree (hs.taken a _ k ⟨v, hv, hstart⟩)

/-- The write starts inside a block or at the start of one, and the slots it
    takes are the ones behind the file. -/
def InStep (bs : BlockStore) (v : Inode) (offset size : Nat) : Prop :=
  (offset % dataBlockAllocSize = 0 ∨ v.dataBlocks[offset / dataBlockAllocSize]? ≠ some 0) ∧
    (newCount v offset size = 0 ∨ firstFree bs.dataBlockTable = some (fileBlocks bs))

/-- A write in step is read back. -/
theorem byteAfter_inStep (hs : Sound t bs) (hv : (a, v) ∈ t.live) (hbuf : buf.length = size)
    (hfit : offset + size ≤ dataBlockAllocSize * fileMaxBlocks)
    (henough : newCount v offset size ≤ (freeSlots bs.dataBlockTable).length)
    (h : InStep bs v offset size) {j : Nat} (hj : j < size) :
    byteAfter bs v buf offset size (offset + j) = buf[j]? := by
  have hin := hs.blocksInside hv
  have hmax : u32 (offset + size) ≤ dataBlockAllocSize * fileMaxBlocks :=
    Nat.le_trans (Nat.mod_le _ _) hfit
  rcases position_cases hfit hj with ⟨hstart, hhead, hpos⟩ | ⟨h1, h2⟩
  · exact byteAfter_start hin hbuf.ge hstart hhead hpos
  · obtain ⟨k, hk, -, hbyte⟩ := byteAfter_new buf _ hmax henough h1 h2
    have hlen := newSlots_length.mpr henough
    have hfirst : firstFree bs.dataBlockTable = some (fileBlocks bs) := by
      rcases h.2 with h0 | h0
      · omega
      · exact h0
    have haligned : offset % dataBlockAllocSize = 0 ∨ startsInside v offset size = true := by
      refine h.1.imp id fun hne => ?_
      by_contra hnot
      obtain ⟨hrounds, hlt⟩ := rounds_pos hfit (by omega : 0 < size)
      have htotal := totalBlocks_le hfit
      exact hne (notInside (by omega) (by omega) hnot)
    have htail := position_tail haligned hj h1
    have hnext := hs.next_slots hfirst v offset size
      (i := (offset + j) / dataBlockAllocSize - firstNew v offset size) (by omega)
    rw [hk] at hnext
    cases hnext
    have hrem : (offset + j) % dataBlockAllocSize < dataBlockAllocSize := Nat.mod_lt _ (by decide)
    have hdata := tailData_length v offset hbuf.ge
    rw [hbyte, byte_behind _ _ _ hs hin, if_pos (by omega)]
    · rw [tailData_getElem? (by omega), ← htail]
    · exact byte_lt (by omega) hrem

/-- A write that takes a slot inside the file lets the reader see old bytes. -/
theorem byteAfter_old_slot (hs : Sound t bs) (hv : (a, v) ∈ t.live)
    (hfit : offset + size ≤ dataBlockAllocSize * fileMaxBlocks)
    (henough : newCount v offset size ≤ (freeSlots bs.dataBlockTable).length) (hn : 0 < size)
    (hnew : 0 < newCount v offset size)
    (hfirst : firstFree bs.dataBlockTable ≠ some (fileBlocks bs)) :
    ∃ buf : Bytes, buf.length = size ∧ ∃ j, j < size ∧
      byteAfter bs v buf offset size (offset + j) ≠ buf[j]? := by
  have hmax : u32 (offset + size) ≤ dataBlockAllocSize * fileMaxBlocks :=
    Nat.le_trans (Nat.mod_le _ _) hfit
  obtain ⟨hrounds, hlt⟩ := rounds_pos hfit hn
  -- the first byte of the first new block
  let j := dataBlockAllocSize * firstNew v offset size - offset
  have hj : j = dataBlockAllocSize * firstNew v offset size - offset := rfl
  have hp : firstNew v offset size + newCount v offset size = totalBlocks (offset + size) := by
    by_cases hin : startsInside v offset size = true
    · rw [firstNew_inside hin]
      rw [newCount_inside hin] at hnew ⊢
      omega
    · rw [firstNew_outside hin, newCount_outside hin]
      omega
  have htotal := (totalBlocks_bounds (offset + size)).2
  have hfirstNew : firstNew v offset size = offset / dataBlockAllocSize ∨
      firstNew v offset size = offset / dataBlockAllocSize + 1 := by
    by_cases hin : startsInside v offset size = true
    · exact Or.inr (firstNew_inside hin)
    · exact Or.inl (firstNew_outside hin)
  have hpos : (offset + j) / dataBlockAllocSize = firstNew v offset size ∧ j < size := by
    simp only [dataBlockAllocSize] at hj htotal hfirstNew ⊢
    omega
  have hlen := newSlots_length.mpr henough
  obtain ⟨k, hk⟩ : ∃ k, (newSlots bs v offset size)[0]? = some k :=
    ⟨_, List.getElem?_eq_getElem (by omega)⟩
  have hbyte : ∀ buf : Bytes, byteAfter bs v buf offset size (offset + j)
      = (BlockStore.file (storeAfter bs v buf offset size))[
        dataBlockAllocSize * k + (offset + j) % dataBlockAllocSize]? := by
    intro buf
    obtain ⟨k', hk', -, h⟩ := byteAfter_new buf (offset + j) hmax henough
      (by omega) (by omega)
    rw [hpos.1, Nat.sub_self, hk] at hk'
    cases hk'
    exact h
  -- its slot lies inside the file and belongs to nobody
  have hkfree : ∃ rest, freeSlots bs.dataBlockTable = k :: rest := by
    unfold newSlots at hk
    rw [List.getElem?_take_of_lt hnew] at hk
    cases hslots : freeSlots bs.dataBlockTable with
    | nil =>
        rw [hslots] at hk
        exact nomatch hk
    | cons k' rest =>
        rw [hslots] at hk
        cases hk
        exact ⟨rest, rfl⟩
  obtain ⟨rest, hslots⟩ := hkfree
  have hkle := hs.lowest_le hslots
  have hkne : k ≠ fileBlocks bs := by
    rintro rfl
    refine hfirst ?_
    rw [firstFree_eq, hslots]
    rfl
  have hknot : ¬ Taken bs k :=
    (isFree_iff.mp (mem_freeSlots.mp (by rw [hslots]; exact List.mem_cons_self ..))).2
  have hr : (offset + j) % dataBlockAllocSize < dataBlockAllocSize := Nat.mod_lt _ (by decide)
  have hinside := hs.byte_inside (show k < fileBlocks bs by omega) hr
  obtain ⟨x, hx⟩ : ∃ x, (BlockStore.file bs)[
      dataBlockAllocSize * k + (offset + j) % dataBlockAllocSize]? = some x :=
    ⟨_, List.getElem?_eq_getElem hinside⟩
  -- data that differs from what is stored there
  refine ⟨List.replicate size (x + 1), List.length_replicate, j, hpos.2, ?_⟩
  rw [hbyte, byte_before hs hv hr (by omega) hknot, hx, List.getElem?_replicate, if_pos hpos.2]
  intro he
  have := Option.some.inj he
  simp at this

/-- A write that starts inside a block nothing was written to lets the reader
    see the bytes before it. -/
theorem byteAfter_hole (hs : Sound t bs) (hv : (a, v) ∈ t.live)
    (hfit : offset + size ≤ dataBlockAllocSize * fileMaxBlocks)
    (henough : newCount v offset size ≤ (freeSlots bs.dataBlockTable).length) (hn : 0 < size)
    (hfirst : firstFree bs.dataBlockTable = some (fileBlocks bs))
    (hmod : offset % dataBlockAllocSize ≠ 0)
    (hhole : v.dataBlocks[offset / dataBlockAllocSize]? = some 0) :
    ∃ buf : Bytes, buf.length = size ∧ ∃ j, j < size ∧
      byteAfter bs v buf offset size (offset + j) ≠ buf[j]? := by
  have hmax : u32 (offset + size) ≤ dataBlockAllocSize * fileMaxBlocks :=
    Nat.le_trans (Nat.mod_le _ _) hfit
  obtain ⟨hrounds, hlt⟩ := rounds_pos hfit hn
  have hin : ¬ startsInside v offset size = true := startsInside_hole hhole
  have hnewFirst := firstNew_outside hin
  have hnewCount := newCount_outside hin
  have hhead := headSize_outside hin
  have hlen := newSlots_length.mpr henough
  -- a one in front of zeros
  let buf : Bytes := 1 :: List.replicate (size - 1) 0
  have hbuf : buf.length = size := by
    show (List.replicate (size - 1) (0 : UInt8)).length + 1 = size
    rw [List.length_replicate]
    omega
  refine ⟨buf, hbuf, 0, hn, ?_⟩
  obtain ⟨k, hk, -, hbyte⟩ := byteAfter_new buf offset hmax henough
    (by omega) (by omega)
  have hnext := hs.next_slots hfirst v offset size (i := 0) (by omega)
  rw [hnewFirst, Nat.sub_self, hnext] at hk
  cases hk
  have hr : offset % dataBlockAllocSize < dataBlockAllocSize := Nat.mod_lt _ (by decide)
  have hbehind := byte_behind buf offset size hs (hs.blocksInside hv)
    (i := 0) (r := offset % dataBlockAllocSize) (by
      have := Nat.mul_le_mul_left dataBlockAllocSize
        (show 1 ≤ (newSlots bs v offset size).length by omega)
      omega)
  -- the byte read is one of the zeros, or of the padding
  have hzero : byteAfter bs v buf offset size offset = some 0 := by
    rw [hbyte, hbehind]
    unfold tailData
    rw [hhead, List.drop_zero, Nat.sub_zero, ← hbuf, List.take_length, Nat.mul_zero, Nat.zero_add]
    by_cases hpos : offset % dataBlockAllocSize < buf.length
    · obtain ⟨r, hr'⟩ : ∃ r, offset % dataBlockAllocSize = r + 1 :=
        ⟨offset % dataBlockAllocSize - 1, by omega⟩
      rw [if_pos hpos, hr']
      show (List.replicate (size - 1) (0 : UInt8))[r]? = some 0
      rw [List.getElem?_replicate, if_pos (by omega)]
    · rw [if_neg hpos]
  rw [Nat.add_zero, hzero]
  exact fun he => nomatch he

/-- Exactly the writes in step are read back whatever their data. -/
theorem inStep_iff (hs : Sound t bs) (hv : (a, v) ∈ t.live)
    (hfit : offset + size ≤ dataBlockAllocSize * fileMaxBlocks)
    (henough : newCount v offset size ≤ (freeSlots bs.dataBlockTable).length) (hn : 0 < size) :
    (∀ buf : Bytes, buf.length = size → ∀ j, j < size →
      byteAfter bs v buf offset size (offset + j) = buf[j]?) ↔ InStep bs v offset size := by
  constructor
  · intro hall
    have hnone : ¬ ∃ buf : Bytes, buf.length = size ∧ ∃ j, j < size ∧
        byteAfter bs v buf offset size (offset + j) ≠ buf[j]? := by
      rintro ⟨buf, hbuf, j, hj, hne⟩
      exact hne (hall buf hbuf j hj)
    have hslot : newCount v offset size = 0 ∨
        firstFree bs.dataBlockTable = some (fileBlocks bs) := by
      by_contra hnot
      obtain ⟨hcount, hfirst⟩ := not_or.mp hnot
      exact hnone (byteAfter_old_slot hs hv hfit henough hn (Nat.pos_of_ne_zero hcount) hfirst)
    refine ⟨?_, hslot⟩
    by_contra hnot
    obtain ⟨hmod, hblock⟩ := not_or.mp hnot
    have hhole := not_not.mp hblock
    rcases hslot with hcount | hfirst
    · -- a write into a hole takes a slot
      obtain ⟨hrounds, hlt⟩ := rounds_pos hfit hn
      have hin : ¬ startsInside v offset size = true := startsInside_hole hhole
      rw [newCount_outside hin] at hcount
      omega
    · exact hnone (byteAfter_hole hs hv hfit henough hn hfirst hmod hhole)
  · intro h buf hbuf j hj
    exact byteAfter_inStep hs hv hbuf hfit henough h hj

end Bytes

/-! ## A write, a seek and a read -/

/-- The descriptor `d` is open for writing under the number `fd`, and the
    search that every use of it makes comes to the inode `v`. -/
structure WritesAt (s : State) (fd b : Nat) (d : Descriptor) (a : Nat) (v : Inode) : Prop where
  desc : s.descriptorTable.find (fun d => d.desc = fd) = .ok (some b)
  opened : s.descriptorTable.get b = .ok d
  mode : d.mode = .writeOnly
  inode : s.inodeTable.find (fun i => i.index = d.nodeIndex) = .ok (some a)
  file : s.inodeTable.get a = .ok v
  offset : (d.offset : Int) ≤ v.stat.stSize

/-- If a write of `data` at the offset `o` of `fd` succeeds, a seek back to
    `o` and a read of as many bytes deliver `data`, whatever the caller's
    buffer held. -/
def ReadsBack (s : State) (env : Env) (fd o : Nat) (data : Bytes) : Prop :=
  ∀ s₁, writeInodeFd s env fd data data.length = .ok (.success, s₁) →
    ∃ s₂, seekInodeFd s₁ fd o = .ok (.success, s₂) ∧
      ∀ env' buf, buf.length = data.length →
        ∃ s₃, readInodeFd s₂ env' fd buf data.length = .ok (.success, data, s₃)

section Service

variable {s : State} {fd b a : Nat} {d : Descriptor} {v : Inode}

/-- The nodes a descriptor in use leads to. -/
theorem WritesAt.found (h : WritesAt s fd b d a v) (hw : WellLinked s) :
    (∃ ld rd, FoundDesc s.descriptorTable fd ld rd b d) ∧
      (∃ li ri, FoundInode s.inodeTable d.nodeIndex li ri a v) ∧ s.inodeTable.Intact :=
  Reaches.found ⟨h.desc, h.opened, h.inode, h.file⟩ hw

/-- The inode after a successful write. -/
def Inode.writtenTo (v : Inode) (bs : BlockStore) (now : Timespec) (offset size : Nat) : Inode :=
  { inodeAfter bs (Inode.written v now) offset size with
    stat.stSize := u32 (offset + size) }

/-- A write succeeds exactly when there are slots enough, and then leaves the
    blocks `storeAfter` describes. -/
theorem writeInodeFd_eq (hw : WellLinked s) {ld rd : List (Nat × Descriptor)}
    {li ri : List (Nat × Inode)} (hfd : FoundDesc s.descriptorTable fd ld rd b d)
    (hf : FoundInode s.inodeTable d.nodeIndex li ri a v) (hi : s.inodeTable.Intact)
    (hmode : d.mode = .writeOnly) (hin : BlocksInside s.blocks v) (env : Env) (data : Bytes)
    (hfit : d.offset + data.length ≤ dataBlockAllocSize * fileMaxBlocks) (s₁ : State) :
    writeInodeFd s env fd data data.length = .ok (.success, s₁) ↔
      newCount v d.offset data.length ≤ (freeSlots s.blocks.dataBlockTable).length ∧
        ∃ t td, s.inodeTable.put a
            (Inode.writtenTo v s.blocks (env.clock 0) d.offset data.length) = .ok t ∧
          s.descriptorTable.put b { d with offset := u32 (d.offset + data.length) } = .ok td ∧
          s₁ = { s with
            inodeTable := t
            descriptorTable := td
            blocks := storeAfter s.blocks v data d.offset data.length } := by
  have hmax : u32 (d.offset + data.length) ≤ dataBlockAllocSize * fileMaxBlocks :=
    Nat.le_trans (Nat.mod_le _ _) hfit
  have hwrite := writeInode_after (v := Inode.written v (env.clock 0)) (hin.congr rfl)
    (show data.length ≤ data.length from Nat.le_refl _) hmax
  rw [(Reaches.of_found hw hi hfd hf).write_eq hmode, hwrite, ok_bind]
  by_cases henough : newCount v d.offset data.length ≤ (freeSlots s.blocks.dataBlockTable).length
  · have henough' : newCount (Inode.written v (env.clock 0)) d.offset data.length
        ≤ (freeSlots s.blocks.dataBlockTable).length := henough
    rw [if_pos henough']
    constructor
    · intro h
      obtain ⟨t, ht, h⟩ := bind_ok_iff.mp h
      obtain ⟨td, htd, h⟩ := bind_ok_iff.mp h
      cases h
      exact ⟨henough, t, td, ht, htd, rfl⟩
    · rintro ⟨-, t, td, ht, htd, rfl⟩
      refine bind_ok_iff.mpr ⟨t, ht, bind_ok_iff.mpr ⟨td, htd, rfl⟩⟩
  · have hless : ¬ newCount (Inode.written v (env.clock 0)) d.offset data.length
        ≤ (freeSlots s.blocks.dataBlockTable).length := henough
    rw [if_neg hless]
    constructor
    · intro h
      obtain ⟨t, ht, h⟩ := bind_ok_iff.mp h
      obtain ⟨td, htd, h⟩ := bind_ok_iff.mp h
      exact nomatch h
    · rintro ⟨h, -⟩
      exact absurd h henough

/-- A seek inside the file succeeds. -/
theorem seekInodeFd_eq (hw : WellLinked s) {ld rd : List (Nat × Descriptor)}
    {li ri : List (Nat × Inode)} (hfd : FoundDesc s.descriptorTable fd ld rd b d)
    (hf : FoundInode s.inodeTable d.nodeIndex li ri a v) (hi : s.inodeTable.Intact) {offset : Nat}
    (hle : (offset : Int) ≤ v.stat.stSize) :
    ∃ td, s.descriptorTable.Updated td ld rd b d { d with offset := offset } ∧
      seekInodeFd s fd offset = .ok (.success, { s with descriptorTable := td }) := by
  obtain ⟨td, htd, hup⟩ := hw.descs.put_split hfd.split { d with offset := offset }
  refine ⟨td, hup, ?_⟩
  unfold seekInodeFd
  rw [hw.descs.find_of_found hw.headed hfd, ok_bind]
  show (s.descriptorTable.get b >>= _) = _
  rw [hfd.get, ok_bind, hw.inodes.find_of_found hi hf, ok_bind]
  show (s.inodeTable.get a >>= _) = _
  rw [hf.get, ok_bind, if_neg (Int.not_lt.mpr hle), htd]
  rfl

/-- A read returns what `read_inode` reads. -/
theorem readInodeFd_eq (hw : WellLinked s) {ld rd : List (Nat × Descriptor)}
    {li ri : List (Nat × Inode)} (hfd : FoundDesc s.descriptorTable fd ld rd b d)
    (hf : FoundInode s.inodeTable d.nodeIndex li ri a v) (hi : s.inodeTable.Intact) {env : Env}
    {buf buf' : Bytes} {size offset' : Nat}
    (hread : readInode s.blocks { v with stat.stAtim := env.clock 0 } buf d.offset size
      = .ok (.success, offset', buf')) :
    ∃ s', readInodeFd s env fd buf size = .ok (.success, buf', s') := by
  obtain ⟨t, ht, -⟩ := hw.inodes.put_split hf.split { v with stat.stAtim := env.clock 0 }
  obtain ⟨td, htd, -⟩ := hw.descs.put_split hfd.split { d with offset := offset' }
  refine ⟨{ s with inodeTable := t, descriptorTable := td }, ?_⟩
  rw [(Reaches.of_found hw hi hfd hf).read_eq env buf size, ht, ok_bind, hread, ok_bind]
  show (s.descriptorTable.put b { d with offset := offset' } >>= _) = _
  rw [htd]
  rfl

/-- The slots and the file after a successful write. -/
theorem sound_writtenTo (hs : Sound s.inodeTable s.blocks) {li ri : List (Nat × Inode)}
    {t : Table Inode} {now : Timespec} {data : Bytes} {offset : Nat}
    (hup : s.inodeTable.Updated t li ri a v (Inode.writtenTo v s.blocks now offset data.length))
    (hmax : u32 (offset + data.length) ≤ dataBlockAllocSize * fileMaxBlocks)
    (henough : newCount v offset data.length ≤ (freeSlots s.blocks.dataBlockTable).length) :
    Sound t (storeAfter s.blocks v data offset data.length) := by
  have hin : BlocksInside s.blocks (Inode.written v now) :=
    (hs.blocksInside hup.mem_old).congr rfl
  have hwrite := writeInode_after hin (show data.length ≤ data.length from Nat.le_refl _) hmax
  have henough' : newCount (Inode.written v now) offset data.length
      ≤ (freeSlots s.blocks.dataBlockTable).length := henough
  rw [if_pos henough'] at hwrite
  obtain ⟨p, ks, hwrote, -⟩ := wrote_of_writeInode (Nat.le_refl _) hwrite hin
  exact hs.wrote hup.replaced hwrote rfl

/-- The bytes of one write decide whether it is read back. -/
theorem readsBack_iff (hw : WellLinked s) (hs : Sound s.inodeTable s.blocks)
    (h : WritesAt s fd b d a v) (env : Env) (data : Bytes)
    (hfit : d.offset + data.length ≤ dataBlockAllocSize * fileMaxBlocks) :
    ReadsBack s env fd d.offset data ↔
      (newCount v d.offset data.length ≤ (freeSlots s.blocks.dataBlockTable).length →
        ∀ j, j < data.length →
          byteAfter s.blocks v data d.offset data.length (d.offset + j) = data[j]?) := by
  obtain ⟨⟨ld, rd, hfd⟩, ⟨li, ri, hf⟩, hi⟩ := h.found hw
  have hin := hs.blocksInside hf.mem
  have hmax : u32 (d.offset + data.length) ≤ dataBlockAllocSize * fileMaxBlocks :=
    Nat.le_trans (Nat.mod_le _ _) hfit
  have hoff : u32 (d.offset + data.length) = d.offset + data.length := by
    apply u32_of_lt
    simp only [dataBlockAllocSize, fileMaxBlocks] at hfit
    omega
  obtain ⟨t, ht, hup⟩ := hw.inodes.put_split hf.split
    (Inode.writtenTo v s.blocks (env.clock 0) d.offset data.length)
  obtain ⟨td, htd, hupd⟩ := hw.descs.put_split hfd.split
    { d with offset := u32 (d.offset + data.length) }
  have hwrite := writeInodeFd_eq hw hfd hf hi h.mode hin env data hfit
  by_cases henough : newCount v d.offset data.length ≤ (freeSlots s.blocks.dataBlockTable).length
  · -- the seek and the read find the same nodes
    let s₁ : State := { s with
      inodeTable := t
      descriptorTable := td
      blocks := storeAfter s.blocks v data d.offset data.length }
    have hdone : ∀ s', writeInodeFd s env fd data data.length = .ok (.success, s') ↔ s' = s₁ := by
      intro s'
      rw [hwrite s']
      constructor
      · rintro ⟨-, t', td', ht', htd', rfl⟩
        cases ht.symm.trans ht'
        cases htd.symm.trans htd'
        rfl
      · rintro rfl
        exact ⟨henough, t, td, ht, htd, rfl⟩
    have hw₁ : WellLinked s₁ := ⟨hup.wf, hw.names, hupd.wf, hupd.intact.mpr hw.headed⟩
    have hfd₁ := hfd.updated hupd hfd.passes
    have hf₁ := hf.updated hup hf.passes
    have hi₁ : t.Intact := hup.intact.mpr hi
    have hle : (d.offset : Int) ≤ (u32 (d.offset + data.length) : Nat) := by
      rw [hoff]
      omega
    obtain ⟨td₂, hup₂, hseek⟩ := seekInodeFd_eq hw₁ hfd₁ hf₁ hi₁ hle
    let s₂ : State := { s₁ with descriptorTable := td₂ }
    have hw₂ : WellLinked s₂ := ⟨hup.wf, hw.names, hup₂.wf, hup₂.intact.mpr hw₁.headed⟩
    have hfd₂ := hfd₁.updated hup₂ hfd.passes
    have hin₁ := (sound_writtenTo hs hup hmax henough).blocksInside hf₁.mem
    have hread : ∀ env' buf, buf.length = data.length → ∃ got s₃,
        readInodeFd s₂ env' fd buf data.length = .ok (.success, got, s₃) ∧
          got.length = data.length ∧ ∀ j, j < data.length →
            got[j]? = byteAfter s.blocks v data d.offset data.length (d.offset + j) := by
      intro env' buf hbuf
      have hin₂ : BlocksInside s₁.blocks { Inode.writtenTo v s.blocks (env.clock 0) d.offset
          data.length with stat.stAtim := env'.clock 0 } := hin₁.congr rfl
      obtain ⟨offset', got, hgot⟩ := readInode_total hin₂ hbuf.ge hfit fun pos h1 h2 => by
        obtain ⟨j, rfl⟩ := Nat.exists_eq_add_of_le h1
        exact inodeAfter_named hfit henough (by omega)
      obtain ⟨s₃, hs₃⟩ := readInodeFd_eq hw₂ hfd₂ hf₁ hi₁ hgot
      obtain ⟨-, hlen, hbytes⟩ := readInode_ok hgot hin₂
      refine ⟨got, s₃, hs₃, hlen.trans hbuf, fun j hj => ?_⟩
      rw [hbytes j, if_pos hj]
      rfl
    constructor
    · intro hback _ j hj
      obtain ⟨s₂', hseek', hback⟩ := hback s₁ ((hdone s₁).mpr rfl)
      cases hseek.symm.trans hseek'
      obtain ⟨s₃, hs₃⟩ := hback env (List.replicate data.length 0) List.length_replicate
      obtain ⟨got, s₃', hs₃', -, hbytes⟩ :=
        hread env (List.replicate data.length 0) List.length_replicate
      cases hs₃.symm.trans hs₃'
      exact (hbytes j hj).symm
    · intro hbytes s' hs'
      obtain rfl := (hdone s').mp hs'
      refine ⟨s₂, hseek, fun env' buf hbuf => ?_⟩
      obtain ⟨got, s₃, hs₃, hlen, hgot⟩ := hread env' buf hbuf
      have hdata : got = data := by
        refine List.ext_getElem? fun j => ?_
        by_cases hj : j < data.length
        · rw [hgot j hj, hbytes henough j hj]
        · rw [List.getElem?_eq_none (by omega), List.getElem?_eq_none (by omega)]
      exact ⟨s₃, by rw [hs₃, hdata]⟩
  · constructor
    · intro _ hle
      exact absurd hle henough
    · intro _ s₁ hs₁
      exact absurd ((hwrite s₁).mp hs₁).1 henough

/-- A write of `n` bytes through an open descriptor is read back whatever its
    data exactly if it is empty, cannot succeed for want of slots, or is in
    step with the data file. -/
theorem written_data_read_back {es : List Event} {n : Nat} (hr : ServiceRun es s)
    (h : WritesAt s fd b d a v) (hfit : d.offset + n ≤ dataBlockAllocSize * fileMaxBlocks) :
    (∀ env data, data.length = n → ReadsBack s env fd d.offset data) ↔
      n = 0 ∨ (freeSlots s.blocks.dataBlockTable).length < newCount v d.offset n ∨
        InStep s.blocks v d.offset n := by
  have hw := wellLinked_of_run hr
  have hs := sound_of_run hr
  obtain ⟨-, ⟨li, ri, hf⟩, -⟩ := h.found hw
  constructor
  · intro hall
    by_contra hnot
    obtain ⟨hn, hnot⟩ := not_or.mp hnot
    obtain ⟨hslots, hstep⟩ := not_or.mp hnot
    have henough := Nat.not_lt.mp hslots
    refine hstep ((inStep_iff hs hf.mem hfit henough (Nat.pos_of_ne_zero hn)).mp ?_)
    intro data hdata j hj
    have hback := hall stillEnv data hdata
    subst hdata
    exact (readsBack_iff hw hs h stillEnv data hfit).mp hback henough j hj
  · intro hcond env data hdata
    subst hdata
    refine (readsBack_iff hw hs h env data hfit).mpr fun henough j hj => ?_
    rcases hcond with hn | hslots | hstep
    · exact absurd hj (by omega)
    · exact absurd henough (Nat.not_le.mpr hslots)
    · exact byteAfter_inStep hs hf.mem rfl hfit henough hstep hj

end Service

/-- A new file, open for writing. -/
def freshRun : List Request := [.create ⟨1, 1, 0o600, nameX⟩, .open ⟨1, 1, nameX, 1⟩]

/-- Its first byte is read back. -/
theorem read_back_fresh : ReadsBack (replay freshRun) stillEnv 0 0 [65] := by
  obtain ⟨es, hr⟩ := run_replay (show returns freshRun = true by decide +kernel)
  have hd : (replay freshRun).descriptorTable.get 0 = .ok ⟨0, .writeOnly, 0, 0⟩ := by
    decide +kernel
  have hinode : (replay freshRun).inodeTable.find (fun i => i.index = 0) = .ok (some 0) := by
    decide +kernel
  obtain ⟨l, v, r, hv⟩ := (wellLinked_of_run hr).inodes.find_some hinode
  have hsize : ∀ p ∈ (replay freshRun).inodeTable.live,
      0 ≤ p.2.stat.stSize ∧ newCount p.2 0 1 = 1 := by decide +kernel
  have hfirst : firstFree (replay freshRun).blocks.dataBlockTable
      = some (fileBlocks (replay freshRun).blocks) := by decide +kernel
  have hat : WritesAt (replay freshRun) 0 0 ⟨0, .writeOnly, 0, 0⟩ 0 v :=
    ⟨by decide +kernel, hd, rfl, hinode, hv.get, (hsize _ hv.mem).1⟩
  exact (written_data_read_back hr hat (by decide)).mpr
    (Or.inr (Or.inr ⟨Or.inl rfl, Or.inr hfirst⟩)) stillEnv [65] rfl

/-- What is read after a write and a seek. -/
def readBack (s : State) (fd o : Nat) (data : Bytes) : C Bytes := do
  let (_, s) ← writeInodeFd s stillEnv fd data data.length
  let (_, s) ← seekInodeFd s fd o
  let (_, got, _) ← readInodeFd s stillEnv fd (List.replicate data.length 0) data.length
  .ok got

theorem ReadsBack.delivers {s : State} {fd o : Nat} {data : Bytes}
    (h : ReadsBack s stillEnv fd o data)
    (hdone : (writeInodeFd s stillEnv fd data data.length).map Prod.fst = .ok .success) :
    readBack s fd o data = .ok data := by
  cases hw : writeInodeFd s stillEnv fd data data.length with
  | error stop =>
      rw [hw] at hdone
      exact nomatch hdone
  | ok p =>
      obtain ⟨st, s₁⟩ := p
      rw [hw] at hdone
      obtain rfl : st = .success := Except.ok.inj hdone
      obtain ⟨s₂, hseek, hread⟩ := h s₁ hw
      obtain ⟨s₃, hs₃⟩ := hread stillEnv _ List.length_replicate
      unfold readBack
      rw [hw, ok_bind]
      show (seekInodeFd s₁ fd o >>= _) = _
      rw [hseek, ok_bind]
      show (readInodeFd s₂ stillEnv fd (List.replicate data.length 0) data.length >>= _) = _
      rw [hs₃]
      rfl

/-- File `a` holds a byte when it is unlinked, and file `b` is opened. -/
def reusedRun : List Request :=
  [.create ⟨1, 1, 0o600, nameX⟩, .create ⟨1, 1, 0o600, nameA⟩, .open ⟨1, 1, nameA, 1⟩,
    .write ⟨1, 1, 0, 1, [65]⟩, .close ⟨1, 1, 0⟩, .unlink ⟨1, 1, nameA⟩,
    .create ⟨1, 1, 0o600, nameB⟩, .open ⟨1, 1, nameB, 1⟩]

/-- Who writes a byte to `b` and reads it back gets the byte of `a`. -/
theorem written_data_lost : ¬ ∀ (es : List Event) (s : State) (fd b a : Nat) (d : Descriptor)
    (v : Inode) (env : Env) (data : Bytes), ServiceRun es s → WritesAt s fd b d a v →
    d.offset + data.length ≤ dataBlockAllocSize * fileMaxBlocks →
    ReadsBack s env fd d.offset data := by
  intro hclaim
  obtain ⟨es, hr⟩ := run_replay (show returns reusedRun = true by decide +kernel)
  have hd : (replay reusedRun).descriptorTable.get 1 = .ok ⟨0, .writeOnly, 0, 1⟩ := by
    decide +kernel
  have hinode : (replay reusedRun).inodeTable.find (fun i => i.index = 1) = .ok (some 2) := by
    decide +kernel
  obtain ⟨l, v, r, hv⟩ := (wellLinked_of_run hr).inodes.find_some hinode
  have hsize : ∀ p ∈ (replay reusedRun).inodeTable.live, 0 ≤ p.2.stat.stSize := by decide +kernel
  have hback := hclaim es _ 0 1 2 _ v stillEnv [66] hr
    ⟨by decide +kernel, hd, rfl, hinode, hv.get, hsize _ hv.mem⟩ (by decide)
  have hgot := hback.delivers (by decide +kernel)
  have hold : readBack (replay reusedRun) 0 0 [66] = .ok [65] := by decide +kernel
  exact nomatch hgot.symm.trans hold

end LibfsSpecs
