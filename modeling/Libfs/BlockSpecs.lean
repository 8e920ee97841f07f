import Libfs.Operations

/-! # The loops over blocks in closed form

    `write_inode` updates the block it starts in, if there is one, and takes a
    free slot for each block behind it; `read_inode` joins what the blocks
    hold.  Both loops are computed here once, so that the results about files
    speak of slots and bytes and not of rounds. -/

namespace LibfsSpecs

open LibfsHeap LibfsStdio LibfsCommon LibfsInode

/-! ## Free slots -/

/-- Slot `k` exists and is not allocated. -/
def isFree (tbl : Vector DataBlock numOfDataBlocks) (k : Nat) : Bool :=
  tbl[k]?.any fun b => !b.allocated

/-- The free slots, lowest first. -/
def freeSlots (tbl : Vector DataBlock numOfDataBlocks) : List Nat :=
  (List.range numOfDataBlocks).filter (isFree tbl)

/-- The free slots are those that are marked so. -/
theorem mem_freeSlots {tbl : Vector DataBlock numOfDataBlocks} {k : Nat} :
    k ∈ freeSlots tbl ↔ isFree tbl k = true := by
  unfold freeSlots
  rw [List.mem_filter, List.mem_range]
  refine ⟨fun h => h.2, fun h => ⟨?_, h⟩⟩
  by_contra hge
  unfold isFree at h
  rw [Vector.getElem?_eq_none (by omega)] at h
  exact nomatch h

/-- They are taken in the order of the table. -/
theorem freeSlots_sorted (tbl : Vector DataBlock numOfDataBlocks) :
    (freeSlots tbl).Pairwise (· < ·) :=
  List.pairwise_lt_range.filter _

/-- They are slots of the table. -/
theorem freeSlots_lt {tbl : Vector DataBlock numOfDataBlocks} {k : Nat}
    (h : k ∈ freeSlots tbl) : k < numOfDataBlocks :=
  List.mem_range.mp (List.mem_filter.mp h).1

/-- The search of `occupy_block_table_slot` stops at the lowest free slot. -/
theorem firstFree_eq (tbl : Vector DataBlock numOfDataBlocks) :
    firstFree tbl = (freeSlots tbl).head? := by
  have hany : ∀ (k : Nat) (hk : k < numOfDataBlocks), isFree tbl k = !tbl[k].allocated := by
    intro k hk
    unfold isFree
    rw [Vector.getElem?_eq_getElem hk]
    rfl
  unfold freeSlots firstFree
  rw [List.head?_filter]
  cases hf : tbl.toList.findIdx? (fun b => !b.allocated) with
  | none =>
      symm
      rw [List.find?_range_eq_none]
      intro k hk
      rw [List.findIdx?_eq_none_iff] at hf
      rw [hany k hk, hf _ (Vector.mem_toList_iff.mpr (Vector.getElem_mem hk))]
      rfl
  | some k =>
      symm
      obtain ⟨hlt, hk, hbefore⟩ := List.findIdx?_eq_some_iff_getElem.mp hf
      have hlt' : k < numOfDataBlocks := by rwa [Vector.length_toList] at hlt
      rw [List.find?_range_eq_some]
      refine ⟨?_, List.mem_range.mpr hlt', fun j hj => ?_⟩
      · rw [hany k hlt']
        simpa using hk
      · rw [hany j (Nat.lt_trans hj hlt')]
        simpa using hbefore j hj

/-- The table after the slots `ks` are given to the inode `index`. -/
def occupySlots (index : Nat) :
    Vector DataBlock numOfDataBlocks → List Nat → Vector DataBlock numOfDataBlocks
  | tbl, [] => tbl
  | tbl, k :: ks => occupySlots index (tbl.setIfInBounds k ⟨true, index⟩) ks

/-- Taking slots changes the entries of these slots and no others. -/
theorem occupySlots_getElem? (index : Nat) (ks : List Nat) :
    ∀ (tbl : Vector DataBlock numOfDataBlocks) (j : Nat), j < numOfDataBlocks →
      (occupySlots index tbl ks)[j]? = if j ∈ ks then some ⟨true, index⟩ else tbl[j]? := by
  induction ks with
  | nil =>
      intro tbl j _
      rw [if_neg List.not_mem_nil]
      rfl
  | cons k ks ih =>
      intro tbl j hj
      rw [show occupySlots index tbl (k :: ks)
        = occupySlots index (tbl.setIfInBounds k ⟨true, index⟩) ks from rfl, ih _ j hj,
        Vector.getElem?_setIfInBounds]
      by_cases hmem : j ∈ ks
      · rw [if_pos hmem, if_pos (List.mem_cons_of_mem k hmem)]
      · by_cases hkj : k = j
        · rw [if_neg hmem, if_pos hkj, if_pos (by rw [hkj]; exact hj),
            if_pos (by rw [hkj]; exact List.mem_cons_self ..)]
        · rw [if_neg hmem, if_neg hkj, if_neg]
          intro hm
          rcases List.mem_cons.mp hm with h | h
          · exact hkj h.symm
          · exact hmem h

/-- Taking the lowest free slot leaves the others free. -/
theorem freeSlots_set {tbl : Vector DataBlock numOfDataBlocks} {k index : Nat} {ks : List Nat}
    (h : freeSlots tbl = k :: ks) : freeSlots (tbl.setIfInBounds k ⟨true, index⟩) = ks := by
  have hfree : ∀ j, isFree (tbl.setIfInBounds k ⟨true, index⟩) j = (isFree tbl j && j != k) := by
    intro j
    unfold isFree
    rw [Vector.getElem?_setIfInBounds]
    by_cases hkj : k = j
    · subst hkj
      rw [if_pos rfl]
      split <;> simp
    · have hjk : (j != k) = true := by simpa using fun e => hkj e.symm
      rw [if_neg hkj, hjk, Bool.and_true]
  have hsplit : freeSlots (tbl.setIfInBounds k ⟨true, index⟩) = (freeSlots tbl).filter (· != k) := by
    unfold freeSlots
    rw [List.filter_filter]
    refine List.filter_congr fun j _ => ?_
    rw [hfree j, Bool.and_comm]
  have hsort := freeSlots_sorted tbl
  rw [h] at hsort
  rw [hsplit, h, List.filter_cons_of_neg (by simp)]
  refine List.filter_eq_self.mpr fun j hj => ?_
  have := (List.pairwise_cons.mp hsort).1 j hj
  simp
  omega

/-! ## New blocks -/

/-- The block numbers of an inode after the slots `ks` are entered from
    position `i` on. -/
def putBlocks : Vector Nat fileMaxBlocks → Nat → List Nat → Vector Nat fileMaxBlocks
  | bl, _, [] => bl
  | bl, i, k :: ks => putBlocks (bl.setIfInBounds i (k + 1)) (i + 1) ks

/-- The new entries stand one behind the other, from the first on. -/
theorem putBlocks_getElem? (ks : List Nat) :
    ∀ (bl : Vector Nat fileMaxBlocks) (i j : Nat), j < fileMaxBlocks →
      (putBlocks bl i ks)[j]?
        = if i ≤ j ∧ j < i + ks.length then ks[j - i]?.map (· + 1) else bl[j]? := by
  induction ks with
  | nil =>
      intro bl i j _
      rw [if_neg (by simp)]
      rfl
  | cons k ks ih =>
      intro bl i j hj
      rw [show putBlocks bl i (k :: ks) = putBlocks (bl.setIfInBounds i (k + 1)) (i + 1) ks from rfl,
        ih _ _ j hj, Vector.getElem?_setIfInBounds, List.length_cons]
      by_cases hij : i = j
      · subst hij
        rw [if_neg (by omega), if_pos rfl, if_pos hj, if_pos (by omega), Nat.sub_self]
        rfl
      · by_cases hin : i + 1 ≤ j ∧ j < i + 1 + ks.length
        · rw [if_pos hin, if_pos (by omega), show j - i = j - (i + 1) + 1 by omega,
            List.getElem?_cons_succ]
        · rw [if_neg hin, if_neg hij, if_neg (by omega)]

/-- What `n` new blocks hold: the bytes of `buf`, a block of them each, and
    zeros behind the last byte. -/
def paddedBlocks (buf : Bytes) : Nat → Bytes
  | 0 => []
  | n + 1 => pad dataBlockAllocSize buf ++ paddedBlocks (buf.drop dataBlockAllocSize) n

/-- Every block is written whole. -/
theorem paddedBlocks_length (n : Nat) :
    ∀ buf : Bytes, (paddedBlocks buf n).length = dataBlockAllocSize * n := by
  induction n with
  | zero =>
      intro buf
      rfl
  | succ n ih =>
      intro buf
      unfold paddedBlocks
      rw [List.length_append, pad_length, ih, Nat.mul_succ, Nat.add_comm]

/-- New blocks hold the bytes of the buffer one after the other. -/
theorem paddedBlocks_getElem? (n : Nat) :
    ∀ (buf : Bytes) (j : Nat), j < dataBlockAllocSize * n →
      (paddedBlocks buf n)[j]? = if j < buf.length then buf[j]? else some 0 := by
  induction n with
  | zero =>
      intro buf j hj
      simp at hj
  | succ n ih =>
      intro buf j hj
      unfold paddedBlocks
      by_cases hfirst : j < dataBlockAllocSize
      · rw [List.getElem?_append_left (by rw [pad_length]; exact hfirst), pad_getElem? buf hfirst]
      · rw [List.getElem?_append_right (by rw [pad_length]; omega), pad_length, ih]
        · rw [List.length_drop, List.getElem?_drop]
          by_cases hbuf : j < buf.length
          · rw [if_pos (by omega), if_pos hbuf, Nat.add_sub_cancel' (by omega)]
          · rw [if_neg (by omega), if_neg hbuf]
        · rw [Nat.mul_succ] at hj
          omega

/-! ## Filling new blocks -/

/-- The data file after `n` new blocks were appended to it. -/
def appendBlocks (file : Option Bytes) (data : Bytes) : Nat → Option Bytes
  | 0 => file
  | n + 1 => some (file.getD [] ++ paddedBlocks data (n + 1))

/-- The blocks are appended to the data file, which may be missing. -/
theorem appendBlocks_getD (file : Option Bytes) (data : Bytes) (n : Nat) :
    (appendBlocks file data n).getD [] = file.getD [] ++ paddedBlocks data n := by
  cases n with
  | zero => exact (List.append_nil _).symm
  | succ n => rfl

/-- Appending block by block. -/
theorem appendBlocks_succ (file : Option Bytes) (data : Bytes) (n : Nat) :
    appendBlocks (some (fwriteAppend (file.getD []) (pad dataBlockAllocSize data)))
        (data.drop dataBlockAllocSize) n
      = appendBlocks file data (n + 1) := by
  have hgoal : file.getD [] ++ paddedBlocks data (n + 1)
      = fwriteAppend (file.getD []) (pad dataBlockAllocSize data)
        ++ paddedBlocks (data.drop dataBlockAllocSize) n := (List.append_assoc ..).symm
  cases n with
  | zero =>
      show some _ = some (file.getD [] ++ paddedBlocks data (0 + 1))
      rw [hgoal]
      exact congrArg some (List.append_nil _).symm
  | succ n =>
      show some _ = some (file.getD [] ++ paddedBlocks data (n + 1 + 1))
      rw [hgoal]
      rfl

/-- What the loop of `write_inode` leaves when it fills `n` new blocks from
    position `i` on: it stops when there is no free slot left. -/
def filled (bs : BlockStore) (inode : Inode) (i n : Nat) (data : Bytes) :
    Status × Inode × BlockStore :=
  let ks := (freeSlots bs.dataBlockTable).take n
  (if ks.length = n then .success else .failure,
    { inode with dataBlocks := putBlocks inode.dataBlocks i ks },
    { dataBlockTable := occupySlots inode.index bs.dataBlockTable ks
      data := appendBlocks bs.data data ks.length })

/-- The loop of `write_inode` from a position on where it updates no block. -/
theorem writeBlocks_filled {buf : Bytes} {offset cur : Nat} (n : Nat) :
    ∀ (i off size : Nat) (inode : Inode) (bs : BlockStore), cur ≤ i →
      (i = cur → inode.dataBlocks[i]? = some 0) → (∀ j, j < n → i + j < fileMaxBlocks) →
      off + size ≤ buf.length →
      writeBlocks buf offset cur n i off size inode bs
        = .ok (filled bs inode i n ((buf.drop off).take size)) := by
  induction n with
  | zero =>
      intro i off size inode bs _ _ _ _
      rfl
  | succ n ih =>
      intro i off size inode bs hcur hzero hmax hbuf
      have hi : i < fileMaxBlocks := hmax 0 (Nat.succ_pos n)
      have hblock : inode.block i = .ok inode.dataBlocks[i] := by
        unfold Inode.block
        rw [Vector.getElem?_eq_getElem hi]
      -- no block is updated in this round
      have hfresh : ¬ (i = cur ∧ inode.dataBlocks[i] ≠ 0) := by
        rintro ⟨he, hne⟩
        have h0 := hzero he
        rw [Vector.getElem?_eq_getElem hi] at h0
        exact hne (Option.some.inj h0)
      let w := if size > dataBlockAllocSize then dataBlockAllocSize else size
      have hw : w = min size dataBlockAllocSize := by
        show (if size > dataBlockAllocSize then dataBlockAllocSize else size) = _
        split <;> omega
      -- the round takes one block off the data, the later rounds the rest
      let data := (buf.drop off).take size
      have hlen : ((buf.drop off).take w).length = w := by
        rw [List.length_take, List.length_drop]
        omega
      have htake : (buf.drop off).take w = data.take dataBlockAllocSize := by
        show _ = ((buf.drop off).take size).take dataBlockAllocSize
        rw [List.take_take, hw, Nat.min_comm]
      have hdrop : (buf.drop (off + w)).take (size - w) = data.drop dataBlockAllocSize := by
        show _ = ((buf.drop off).take size).drop dataBlockAllocSize
        rw [List.drop_take, List.drop_drop]
        by_cases hbig : size ≤ dataBlockAllocSize
        · rw [show size - w = 0 by omega, show size - dataBlockAllocSize = 0 by omega,
            List.take_zero, List.take_zero]
        · rw [show w = dataBlockAllocSize by omega]
      have hslice : slice (buf.drop off) 0 w = .ok ((buf.drop off).take w) := by
        rw [slice_of_le (by rw [List.length_drop]; omega), List.drop_zero]
      have hpoke := poke_zeros (n := dataBlockAllocSize) ((buf.drop off).take w) (by omega)
      rw [writeBlocks, hblock, ok_bind]
      simp only [if_neg hfresh]
      show (slice (buf.drop off) 0 w >>= _) = _
      rw [hslice, ok_bind, hpoke, ok_bind]
      cases hfree : freeSlots bs.dataBlockTable with
      | nil =>
          have hnone : occupyBlockTableSlot bs inode.index
              (pad dataBlockAllocSize ((buf.drop off).take w)) w = .ok none := by
            unfold occupyBlockTableSlot
            rw [firstFree_eq, hfree]
            rfl
          rw [hnone, ok_bind]
          unfold filled
          rw [hfree]
          rfl
      | cons k ks =>
          have hsome : occupyBlockTableSlot bs inode.index
              (pad dataBlockAllocSize ((buf.drop off).take w)) w
              = .ok (some (k + 1,
                { dataBlockTable := bs.dataBlockTable.setIfInBounds k ⟨true, inode.index⟩
                  data := some (fwriteAppend (bs.data.getD [])
                    (pad dataBlockAllocSize data)) })) := by
            unfold occupyBlockTableSlot
            rw [firstFree_eq, hfree]
            have hback := pad_take (n := dataBlockAllocSize) ((buf.drop off).take w) (by omega)
            rw [hlen] at hback
            show (slice (pad dataBlockAllocSize ((buf.drop off).take w)) 0 w >>= _) = _
            rw [slice_of_le (by rw [pad_length]; omega), List.drop_zero, hback, ok_bind, hpoke,
              ok_bind, htake, pad_of_take]
          rw [hsome, ok_bind]
          show writeBlocks buf offset cur n (i + 1) (off + w) (size - w) (inode.setBlock i (k + 1)) _ = _
          rw [ih (i + 1) (off + w) (size - w) _ _ (by omega) (by omega)
            (fun j hj => by have := hmax (j + 1) (by omega); omega) (by omega), hdrop]
          unfold filled
          rw [hfree, freeSlots_set hfree]
          simp only [List.take_succ_cons, List.length_cons, Nat.add_right_cancel_iff]
          rw [appendBlocks_succ]
          rfl

/-! ## Writing one inode -/

/-- The number of blocks a write touches. -/
def rounds (offset size : Nat) : Nat :=
  totalBlocks (u32 (offset + size)) - offset / dataBlockAllocSize

/-- The write starts in a block the inode already has. -/
def startsInside (v : Inode) (offset size : Nat) : Bool :=
  decide (0 < rounds offset size) &&
    v.dataBlocks[offset / dataBlockAllocSize]?.any fun block => decide (block ≠ 0)

/-- The write starts inside if there is a block and something to write. -/
theorem startsInside_iff {v : Inode} {offset size : Nat} :
    startsInside v offset size = true ↔
      ∃ k, v.dataBlocks[offset / dataBlockAllocSize]? = some (k + 1) ∧ 0 < rounds offset size := by
  unfold startsInside
  rw [Bool.and_eq_true, decide_eq_true_iff]
  cases hb : v.dataBlocks[offset / dataBlockAllocSize]? with
  | none => simp
  | some block =>
      cases block with
      | zero => simp
      | succ k => simp

/-- A write that starts at a position without block does not start inside. -/
theorem startsInside_hole {v : Inode} {offset size : Nat}
    (h : v.dataBlocks[offset / dataBlockAllocSize]? = some 0) : ¬ startsInside v offset size = true := by
  intro hin
  obtain ⟨k, hk, -⟩ := startsInside_iff.mp hin
  rw [h] at hk
  exact nomatch hk

/-- A write that does not start inside finds a zero at its first position. -/
theorem notInside {v : Inode} {offset size : Nat} (hpos : 0 < rounds offset size)
    (hlt : offset / dataBlockAllocSize < fileMaxBlocks) (h : ¬ startsInside v offset size = true) :
    v.dataBlocks[offset / dataBlockAllocSize]? = some 0 := by
  rw [Vector.getElem?_eq_getElem hlt]
  cases hb : v.dataBlocks[offset / dataBlockAllocSize] with
  | zero => rfl
  | succ k =>
      refine absurd (startsInside_iff.mpr ⟨k, ?_, hpos⟩) h
      rw [Vector.getElem?_eq_getElem hlt, hb]

/-- The bytes that go to the block the write starts in. -/
def headSize (v : Inode) (offset size : Nat) : Nat :=
  if startsInside v offset size then
    min size (dataBlockAllocSize - offset % dataBlockAllocSize)
  else 0

/-- The first position that gets a new block. -/
def firstNew (v : Inode) (offset size : Nat) : Nat :=
  offset / dataBlockAllocSize + if startsInside v offset size then 1 else 0

/-- The number of positions that get a new block if there are enough. -/
def newCount (v : Inode) (offset size : Nat) : Nat :=
  rounds offset size - if startsInside v offset size then 1 else 0

section Starts

variable {v : Inode} {offset size : Nat}

/-- What fits the block the write starts in. -/
theorem headSize_inside (h : startsInside v offset size = true) :
    headSize v offset size = min size (dataBlockAllocSize - offset % dataBlockAllocSize) :=
  if_pos h

/-- Nothing is written to a block that is not there. -/
theorem headSize_outside (h : ¬ startsInside v offset size = true) :
    headSize v offset size = 0 :=
  if_neg h

/-- It is at most what there is to write. -/
theorem headSize_le (v : Inode) (offset size : Nat) : headSize v offset size ≤ size := by
  unfold headSize
  split
  · exact Nat.min_le_left ..
  · exact Nat.zero_le size

/-- Behind a block that is there comes the next position. -/
theorem firstNew_inside (h : startsInside v offset size = true) :
    firstNew v offset size = offset / dataBlockAllocSize + 1 := by
  unfold firstNew
  rw [if_pos h]

/-- Without it, the first new block is at the start. -/
theorem firstNew_outside (h : ¬ startsInside v offset size = true) :
    firstNew v offset size = offset / dataBlockAllocSize := by
  unfold firstNew
  rw [if_neg h, Nat.add_zero]

/-- New blocks do not lie before the start. -/
theorem le_firstNew (v : Inode) (offset size : Nat) :
    offset / dataBlockAllocSize ≤ firstNew v offset size :=
  Nat.le_add_right ..

/-- The block that is there is not counted. -/
theorem newCount_inside (h : startsInside v offset size = true) :
    newCount v offset size = rounds offset size - 1 := by
  unfold newCount
  rw [if_pos h]

/-- All blocks are new. -/
theorem newCount_outside (h : ¬ startsInside v offset size = true) :
    newCount v offset size = rounds offset size := by
  unfold newCount
  rw [if_neg h, Nat.sub_zero]

end Starts

/-- The blocks after the update of the block the write starts in. -/
def updated (bs : BlockStore) (v : Inode) (buf : Bytes) (offset size : Nat) : BlockStore :=
  let block := v.dataBlocks[offset / dataBlockAllocSize]?.getD 0
  let pos := dataBlockAllocSize * (block - 1) + offset % dataBlockAllocSize
  if startsInside v offset size then
    { bs with data := bs.data.map fun file => fwriteAt file pos (buf.take (headSize v offset size)) }
  else bs

/-- The bytes that go to new blocks. -/
def tailData (v : Inode) (buf : Bytes) (offset size : Nat) : Bytes :=
  (buf.drop (headSize v offset size)).take (size - headSize v offset size)

/-- What is left for the new blocks. -/
theorem tailData_length (v : Inode) {buf : Bytes} (offset : Nat) {size : Nat}
    (hbuf : size ≤ buf.length) :
    (tailData v buf offset size).length = size - headSize v offset size := by
  unfold tailData
  rw [List.length_take, List.length_drop]
  omega

/-- It follows what went into the first block. -/
theorem tailData_getElem? {v : Inode} {buf : Bytes} {offset size i : Nat}
    (hi : i < size - headSize v offset size) :
    (tailData v buf offset size)[i]? = buf[headSize v offset size + i]? := by
  unfold tailData
  rw [List.getElem?_take_of_lt hi, List.getElem?_drop]

/-- What `write_inode` leaves. -/
def writeResult (bs : BlockStore) (v : Inode) (buf : Bytes) (offset size : Nat) :
    Status × Inode × Nat × BlockStore :=
  let newOffset := u32 (offset + size)
  let fill := filled (updated bs v buf offset size) v (firstNew v offset size)
    (newCount v offset size) (tailData v buf offset size)
  if fill.1 = .success then
    (.success, { fill.2.1 with stat.stSize := newOffset }, newOffset, fill.2.2)
  else (.failure, fill.2.1, offset, fill.2.2)

/-- A file of the largest size has all its blocks in the list. -/
theorem totalBlocks_le {n : Nat} (h : n ≤ dataBlockAllocSize * fileMaxBlocks) :
    totalBlocks n ≤ fileMaxBlocks := by
  unfold totalBlocks
  simp only [dataBlockAllocSize, fileMaxBlocks] at h ⊢
  split <;> omega

/-- A position in a file is in one of its blocks. -/
theorem lt_totalBlocks {pos n : Nat} (h : pos < n) : pos / dataBlockAllocSize < totalBlocks n := by
  unfold totalBlocks
  simp only [dataBlockAllocSize]
  split <;> omega

/-- The blocks of `n` bytes hold them, and less than one block more. -/
theorem totalBlocks_bounds (n : Nat) : n ≤ dataBlockAllocSize * totalBlocks n ∧
    dataBlockAllocSize * totalBlocks n < n + dataBlockAllocSize := by
  unfold totalBlocks
  simp only [dataBlockAllocSize]
  split <;> omega

/-- The loop of `write_inode` in closed form. -/
theorem writeBlocks_eq {bs : BlockStore} {v : Inode} {buf : Bytes} {offset size : Nat}
    (hbuf : size ≤ buf.length) (hmax : u32 (offset + size) ≤ dataBlockAllocSize * fileMaxBlocks)
    (hstart : ∀ k, v.dataBlocks[offset / dataBlockAllocSize]? = some (k + 1) →
      k < numOfDataBlocks ∧ bs.data ≠ none) :
    writeBlocks buf offset (offset / dataBlockAllocSize) (rounds offset size)
        (offset / dataBlockAllocSize) 0 size v bs
      = .ok (filled (updated bs v buf offset size) v (firstNew v offset size)
        (newCount v offset size) (tailData v buf offset size)) := by
  have htotal := totalBlocks_le hmax
  have hcount : rounds offset size = totalBlocks (u32 (offset + size)) - offset / dataBlockAllocSize :=
    rfl
  by_cases hin : startsInside v offset size = true
  · -- the first round updates a block, the others fill new ones
    obtain ⟨k, hblock, hpos⟩ := startsInside_iff.mp hin
    obtain ⟨hk, hdata⟩ := hstart k hblock
    obtain ⟨file, hfile⟩ := Option.ne_none_iff_exists'.mp hdata
    obtain ⟨n, hn⟩ : ∃ n, rounds offset size = n + 1 := ⟨rounds offset size - 1, by omega⟩
    have hload : v.block (offset / dataBlockAllocSize) = .ok (k + 1) := by
      unfold Inode.block
      rw [hblock]
    have hhead := headSize_inside hin
    have hfirst := firstNew_inside hin
    have hnew : newCount v offset size = n := by
      rw [newCount_inside hin, hn, Nat.add_sub_cancel]
    let room := dataBlockAllocSize - offset % dataBlockAllocSize
    have hw : (if size > room then room else size) = headSize v offset size := by
      rw [hhead]
      split <;> omega
    have hupd : updateBlockTableSlot bs k (buf.drop 0) (offset % dataBlockAllocSize)
        (headSize v offset size) = .ok (some (updated bs v buf offset size)) := by
      unfold updateBlockTableSlot updated
      rw [if_neg (by omega), if_pos hin, hfile, List.drop_zero,
        slice_of_le (by omega), List.drop_zero, hblock]
      rfl
    rw [hn, writeBlocks, hload, ok_bind]
    simp only [Nat.add_eq_zero_iff, Nat.one_ne_zero, and_false, ne_eq, not_false_eq_true,
      and_true, if_true, Nat.add_sub_cancel]
    unfold tailData
    rw [hw, hupd, ok_bind, hfirst, hnew, Nat.zero_add]
    exact writeBlocks_filled n _ _ _ v _ (by omega) (by omega) (fun j hj => by omega) (by omega)
  · -- all rounds fill new blocks
    have hbs : updated bs v buf offset size = bs := if_neg hin
    unfold tailData
    rw [hbs, headSize_outside hin, firstNew_outside hin, newCount_outside hin, Nat.sub_zero]
    by_cases hzero : rounds offset size = 0
    · rw [hzero]
      rfl
    · refine writeBlocks_filled _ _ _ _ v _ (Nat.le_refl _) (fun _ => ?_) (fun j hj => by omega)
        (by omega)
      exact notInside (Nat.pos_of_ne_zero hzero) (by omega) hin

/-- `write_inode` in closed form. -/
theorem writeInode_eq {bs : BlockStore} {v : Inode} {buf : Bytes} {offset size : Nat}
    (hbuf : size ≤ buf.length) (hmax : u32 (offset + size) ≤ dataBlockAllocSize * fileMaxBlocks)
    (hstart : ∀ k, v.dataBlocks[offset / dataBlockAllocSize]? = some (k + 1) →
      k < numOfDataBlocks ∧ bs.data ≠ none) :
    writeInode bs v buf offset size = .ok (writeResult bs v buf offset size) := by
  have hmax' : ¬ u32 (offset + size) > dataBlockAllocSize * fileMaxBlocks := Nat.not_lt.mpr hmax
  unfold writeInode writeResult
  simp only [if_neg hmax']
  show (writeBlocks buf offset (offset / dataBlockAllocSize) (rounds offset size)
    (offset / dataBlockAllocSize) 0 size v bs >>= _) = _
  rw [writeBlocks_eq hbuf hmax hstart, ok_bind]
  split <;> rfl

/-- A write that is too long is refused before it starts. -/
theorem writeInode_too_long {bs : BlockStore} {v : Inode} {buf : Bytes} {offset size : Nat}
    (hmax : dataBlockAllocSize * fileMaxBlocks < u32 (offset + size)) :
    writeInode bs v buf offset size = .ok (.failure, v, offset, bs) := by
  unfold writeInode
  exact if_pos hmax

/-! ## Reading one inode -/

/-- The byte at position `pos` of a file with the blocks `bl`. -/
def fileByte (file : Bytes) (bl : Vector Nat fileMaxBlocks) (pos : Nat) : Option UInt8 :=
  match bl[pos / dataBlockAllocSize]? with
  | some (k + 1) => file[dataBlockAllocSize * k + pos % dataBlockAllocSize]?
  | _ => none

/-- The byte at a position in a block that is there. -/
theorem fileByte_eq {file : Bytes} {bl : Vector Nat fileMaxBlocks} {pos k : Nat}
    (h : bl[pos / dataBlockAllocSize]? = some (k + 1)) :
    fileByte file bl pos = file[dataBlockAllocSize * k + pos % dataBlockAllocSize]? := by
  unfold fileByte
  rw [h]

/-- A byte of one of the first `n` blocks. -/
theorem byte_lt {k r n : Nat} (hk : k < n) (hr : r < dataBlockAllocSize) :
    dataBlockAllocSize * k + r < dataBlockAllocSize * n :=
  calc dataBlockAllocSize * k + r
      < dataBlockAllocSize * k + dataBlockAllocSize := Nat.add_lt_add_left hr _
    _ = dataBlockAllocSize * (k + 1) := (Nat.mul_succ ..).symm
    _ ≤ dataBlockAllocSize * n := Nat.mul_le_mul_left _ hk

/-- The block a byte of the data file is in. -/
theorem byte_div {k r : Nat} (hr : r < dataBlockAllocSize) :
    (dataBlockAllocSize * k + r) / dataBlockAllocSize = k := by
  rw [Nat.mul_add_div (by decide), Nat.div_eq_of_lt hr, Nat.add_zero]

/-- The blocks an inode names lie inside the data file. -/
def BlocksInside (bs : BlockStore) (v : Inode) : Prop :=
  ∀ i k : Nat, v.dataBlocks[i]? = some (k + 1) →
    k < numOfDataBlocks ∧ dataBlockAllocSize * (k + 1) ≤ (bs.data.getD []).length

/-- A read of a block inside the file delivers the whole piece. -/
theorem readSlot_ok {bs : BlockStore} {v : Inode} (hin : BlocksInside bs v) {i k : Nat} (r n : Nat)
    (hb : v.dataBlocks[i]? = some (k + 1)) (hr : r + n ≤ dataBlockAllocSize) :
    ∃ got : Bytes, readBlockTableSlot bs (u32 (k + 1 + 4294967295)) r n = .ok (some got) ∧
      got.length = n ∧
      ∀ j, j < n → got[j]? = (bs.data.getD [])[dataBlockAllocSize * k + (r + j)]? := by
  obtain ⟨hk, hfile⟩ := hin i k hb
  have hslot : u32 (k + 1 + 4294967295) = k := by
    unfold u32
    simp only [numOfDataBlocks] at hk
    omega
  cases hdata : bs.data with
  | none =>
      rw [hdata] at hfile
      simp at hfile
  | some file =>
      rw [hdata] at hfile
      rw [Option.getD_some] at hfile
      have hlen : dataBlockAllocSize * k + r + n ≤ file.length := by
        rw [Nat.mul_succ] at hfile
        omega
      refine ⟨freadAt file (dataBlockAllocSize * k + r) n, ?_, freadAt_length hlen, fun j hj => ?_⟩
      · unfold readBlockTableSlot
        rw [hslot, if_neg (by omega), hdata]
      · rw [freadAt_getElem?, if_pos hj, Option.getD_some, Nat.add_assoc]

/-- A read that failed at a hole. -/
theorem readSlot_hole (bs : BlockStore) (r n : Nat) :
    readBlockTableSlot bs (u32 (0 + 4294967295)) r n = .ok none :=
  if_pos (by decide)

/-- The position inside a block after `n` more bytes. -/
theorem pos_in_block (off j : Nat) (h : off % dataBlockAllocSize + j < dataBlockAllocSize) :
    (off + j) / dataBlockAllocSize = off / dataBlockAllocSize ∧
      (off + j) % dataBlockAllocSize = off % dataBlockAllocSize + j := by
  simp only [dataBlockAllocSize] at h ⊢
  omega

/-- A round at a position without block ends the loop of `read_inode`. -/
theorem readBlocks_hole {bs : BlockStore} {v : Inode} {i : Nat} (hi : v.dataBlocks[i]? = some 0)
    (n m curOff off : Nat) (buf : Bytes) :
    readBlocks bs v (n + 1) i curOff (m + 1) off buf = .ok (.failure, off, buf) := by
  have hload : v.block i = .ok 0 := by
    unfold Inode.block
    rw [hi]
  rw [readBlocks, hload, ok_bind]
  simp only [readSlot_hole]
  rfl

/-- A round at a position behind the list of blocks. -/
theorem readBlocks_outside {bs : BlockStore} {v : Inode} {i : Nat} (hi : v.dataBlocks[i]? = none)
    (n m curOff off : Nat) (buf : Bytes) :
    readBlocks bs v (n + 1) i curOff (m + 1) off buf = .error .undefinedBehaviour := by
  have hload : v.block i = .error .undefinedBehaviour := by
    unfold Inode.block
    rw [hi]
  rw [readBlocks, hload]
  rfl

/-- A round at a block the inode has copies the bytes of the block that are
    asked for, and goes on at the next block. -/
theorem readBlocks_block {bs : BlockStore} {v : Inode} (hin : BlocksInside bs v) {off k : Nat}
    (hb : v.dataBlocks[off / dataBlockAllocSize]? = some (k + 1)) (n m curOff : Nat) (buf : Bytes)
    {w : Nat} (hw : w = min (m + 1) (dataBlockAllocSize - off % dataBlockAllocSize)) :
    ∃ got : Bytes, got.length = w ∧
      (∀ j, j < w → got[j]? = fileByte (bs.data.getD []) v.dataBlocks (off + j)) ∧
      readBlocks bs v (n + 1) (off / dataBlockAllocSize) curOff (m + 1) off buf
        = (poke buf curOff got >>= fun buf' =>
          readBlocks bs v n (off / dataBlockAllocSize + 1) (curOff + w) (m + 1 - w) (off + w) buf') := by
  have hrem : off % dataBlockAllocSize < dataBlockAllocSize := Nat.mod_lt _ (by decide)
  have hsize : (if m + 1 > dataBlockAllocSize - off % dataBlockAllocSize then
      dataBlockAllocSize - off % dataBlockAllocSize else m + 1) = w := by
    split <;> omega
  obtain ⟨got, hgot, hlen, hbytes⟩ := readSlot_ok hin (off % dataBlockAllocSize) w hb (by omega)
  have hlt : off / dataBlockAllocSize < fileMaxBlocks := by
    by_contra hge
    rw [Vector.getElem?_eq_none (by omega)] at hb
    exact nomatch hb
  have hoff : u32 (off + w) = off + w := by
    apply u32_of_lt
    simp only [dataBlockAllocSize, fileMaxBlocks] at hlt hrem hw
    omega
  have hload : v.block (off / dataBlockAllocSize) = .ok (k + 1) := by
    unfold Inode.block
    rw [hb]
  refine ⟨got, hlen, ?_, ?_⟩
  · intro j hj
    obtain ⟨hdiv, hmod⟩ := pos_in_block off j (by omega)
    rw [hbytes j hj, fileByte_eq (k := k) (by rw [hdiv]; exact hb), hmod]
  · rw [readBlocks, hload, ok_bind]
    simp only [hsize]
    rw [hgot, ok_bind]
    simp only [hoff]

/-- The next round of the loop begins at the next block. -/
theorem next_block {off m w : Nat}
    (hw : w = min (m + 1) (dataBlockAllocSize - off % dataBlockAllocSize)) :
    m + 1 - w = 0 ∨ off / dataBlockAllocSize + 1 = (off + w) / dataBlockAllocSize := by
  by_cases hlast : m + 1 ≤ dataBlockAllocSize - off % dataBlockAllocSize
  · exact Or.inl (by omega)
  · refine Or.inr ?_
    simp only [dataBlockAllocSize] at hw hlast ⊢
    omega

/-- What the loop of `read_inode` has put into the buffer when it succeeds:
    the bytes of the file, whatever the history of its blocks. -/
theorem readBlocks_ok {bs : BlockStore} {v : Inode} (hin : BlocksInside bs v) (n : Nat) :
    ∀ (cur curOff m off off' : Nat) (buf buf' : Bytes),
      (m = 0 ∨ cur = off / dataBlockAllocSize) →
      readBlocks bs v n cur curOff m off buf = .ok (.success, off', buf') →
      off' = off + m ∧ buf'.length = buf.length ∧
        ∀ j : Nat, buf'[j]? = if curOff ≤ j ∧ j < curOff + m then
          fileByte (bs.data.getD []) v.dataBlocks (off + (j - curOff)) else buf[j]? := by
  induction n with
  | zero =>
      intro cur curOff m off off' buf buf' _ h
      cases m with
      | succ m => exact nomatch h
      | zero =>
          rw [readBlocks.eq_1] at h
          cases h
          exact ⟨rfl, rfl, fun j => by rw [if_neg (by omega)]⟩
  | succ n ih =>
      intro cur curOff m off off' buf buf' hcur h
      cases m with
      | zero =>
          rw [readBlocks.eq_1] at h
          cases h
          exact ⟨rfl, rfl, fun j => by rw [if_neg (by omega)]⟩
      | succ m =>
          obtain rfl : cur = off / dataBlockAllocSize := hcur.resolve_left (Nat.succ_ne_zero m)
          cases hb : v.dataBlocks[off / dataBlockAllocSize]? with
          | none =>
              rw [readBlocks_outside hb] at h
              exact nomatch h
          | some block =>
              cases block with
              | zero =>
                  rw [readBlocks_hole hb] at h
                  exact nomatch h
              | succ k =>
                  obtain ⟨w, hw⟩ :
                      ∃ w, w = min (m + 1) (dataBlockAllocSize - off % dataBlockAllocSize) := ⟨_, rfl⟩
                  have hle : w ≤ m + 1 := hw.trans_le (Nat.min_le_left ..)
                  obtain ⟨got, hlen, hbytes, hround⟩ := readBlocks_block hin hb n m curOff buf hw
                  rw [hround] at h
                  obtain ⟨buf₁, hpoke, h⟩ := bind_ok_iff.mp h
                  obtain ⟨rfl, hlen', hrest⟩ := ih _ _ _ _ _ _ _ (next_block hw) h
                  refine ⟨by omega, hlen'.trans (poke_ok hpoke).2.1, fun j => ?_⟩
                  rw [hrest j]
                  by_cases h1 : curOff + w ≤ j ∧ j < curOff + w + (m + 1 - w)
                  · -- a byte of a later round
                    rw [if_pos h1, if_pos (by omega),
                      show off + w + (j - (curOff + w)) = off + (j - curOff) by omega]
                  · rw [if_neg h1, poke_getElem? hpoke, hlen]
                    by_cases h2 : curOff ≤ j ∧ j < curOff + w
                    · rw [if_pos h2, if_pos (by omega), hbytes _ (by omega)]
                    · rw [if_neg h2, if_neg (by omega)]

/-- A round of the loop of `read_inode` at a block the inode has, with room in
    the buffer. -/
theorem readBlocks_round {bs : BlockStore} {v : Inode} (hin : BlocksInside bs v) {off k : Nat}
    (hb : v.dataBlocks[off / dataBlockAllocSize]? = some (k + 1)) (n m curOff : Nat) (buf : Bytes)
    {w : Nat} (hw : w = min (m + 1) (dataBlockAllocSize - off % dataBlockAllocSize))
    (hbuf : curOff + w ≤ buf.length) :
    ∃ buf', buf'.length = buf.length ∧
      readBlocks bs v (n + 1) (off / dataBlockAllocSize) curOff (m + 1) off buf
        = readBlocks bs v n (off / dataBlockAllocSize + 1) (curOff + w) (m + 1 - w) (off + w)
          buf' := by
  obtain ⟨got, hlen, -, hround⟩ := readBlocks_block hin hb n m curOff buf hw
  obtain ⟨buf', hpoke⟩ : ∃ buf', poke buf curOff got = .ok buf' := ⟨_, poke_of_le (by omega)⟩
  refine ⟨buf', (poke_ok hpoke).2.1, ?_⟩
  rw [hround, hpoke, ok_bind]

/-- The loop of `read_inode` succeeds on a part of the file without holes. -/
theorem readBlocks_total {bs : BlockStore} {v : Inode} (hin : BlocksInside bs v) (n : Nat) :
    ∀ (cur curOff m off : Nat) (buf : Bytes), (m = 0 ∨ cur = off / dataBlockAllocSize) → m ≤ n →
      curOff + m ≤ buf.length →
      (∀ pos, off ≤ pos → pos < off + m → ∃ k, v.dataBlocks[pos / dataBlockAllocSize]? = some (k + 1)) →
      ∃ off' buf', readBlocks bs v n cur curOff m off buf = .ok (.success, off', buf') := by
  induction n with
  | zero =>
      intro cur curOff m off buf _ hm _ _
      obtain rfl := Nat.le_zero.mp hm
      exact ⟨off, buf, by rw [readBlocks.eq_1]⟩
  | succ n ih =>
      intro cur curOff m off buf hcur hm hbuf hblocks
      cases m with
      | zero => exact ⟨off, buf, by rw [readBlocks.eq_1]⟩
      | succ m =>
          obtain rfl : cur = off / dataBlockAllocSize := hcur.resolve_left (Nat.succ_ne_zero m)
          obtain ⟨k, hb⟩ := hblocks off (Nat.le_refl _) (by omega)
          have hrem : off % dataBlockAllocSize < dataBlockAllocSize := Nat.mod_lt _ (by decide)
          obtain ⟨w, hw⟩ : ∃ w, w = min (m + 1) (dataBlockAllocSize - off % dataBlockAllocSize) :=
            ⟨_, rfl⟩
          obtain ⟨buf₁, hlen, hround⟩ := readBlocks_round hin hb n m curOff buf hw (by omega)
          rw [hround]
          have hle : w ≤ m + 1 := hw.trans_le (Nat.min_le_left ..)
          have hpos : 0 < w := by omega
          exact ih _ _ _ _ buf₁ (next_block hw) (by omega) (by omega)
            (fun pos h1 h2 => hblocks pos (by omega) (by omega))

/-- A read never changes the size of the caller's buffer. -/
theorem readBlocks_length {bs : BlockStore} {v : Inode} (n : Nat) :
    ∀ {cur curOff m off off' : Nat} {buf buf' : Bytes} {st : Status},
      readBlocks bs v n cur curOff m off buf = .ok (st, off', buf') → buf'.length = buf.length := by
  induction n with
  | zero =>
      intro cur curOff m off off' buf buf' st h
      cases m with
      | zero =>
          rw [readBlocks.eq_1] at h
          cases h
          rfl
      | succ m => exact nomatch h
  | succ n ih =>
      intro cur curOff m off off' buf buf' st h
      cases m with
      | zero =>
          rw [readBlocks.eq_1] at h
          cases h
          rfl
      | succ m =>
          rw [readBlocks] at h
          obtain ⟨block, -, h⟩ := bind_ok_iff.mp h
          obtain ⟨slot, -, h⟩ := bind_ok_iff.mp h
          cases slot with
          | none =>
              cases h
              rfl
          | some got =>
              obtain ⟨buf₁, hpoke, h⟩ := bind_ok_iff.mp h
              exact (ih h).trans (poke_ok hpoke).2.1

/-- The buffer keeps its length. -/
theorem readInode_length {bs : BlockStore} {v : Inode} {buf buf' : Bytes} {offset offset' size : Nat}
    {st : Status} (h : readInode bs v buf offset size = .ok (st, offset', buf')) :
    buf'.length = buf.length := by
  unfold readInode at h
  split at h
  · cases h
    rfl
  · exact readBlocks_length size h

/-- What a successful read delivers. -/
theorem readInode_ok {bs : BlockStore} {v : Inode} {buf buf' : Bytes} {offset offset' size : Nat}
    (h : readInode bs v buf offset size = .ok (.success, offset', buf')) (hin : BlocksInside bs v) :
    offset' = offset + size ∧ buf'.length = buf.length ∧ ∀ j : Nat, buf'[j]? = if j < size then
      fileByte (bs.data.getD []) v.dataBlocks (offset + j) else buf[j]? := by
  unfold readInode at h
  split at h
  · exact nomatch h
  · obtain ⟨h1, h2, h3⟩ := readBlocks_ok hin size _ _ _ _ _ _ _ (Or.inr rfl) h
    refine ⟨h1, h2, fun j => ?_⟩
    rw [h3 j, Nat.zero_add, Nat.sub_zero]
    simp only [Nat.zero_le, true_and]

/-- A read of a part of the file without holes succeeds. -/
theorem readInode_total {bs : BlockStore} {v : Inode} (hin : BlocksInside bs v) {buf : Bytes}
    {offset size : Nat} (hbuf : size ≤ buf.length)
    (hmax : offset + size ≤ dataBlockAllocSize * fileMaxBlocks)
    (hblocks : ∀ pos, offset ≤ pos → pos < offset + size →
      ∃ k, v.dataBlocks[pos / dataBlockAllocSize]? = some (k + 1)) :
    ∃ offset' buf', readInode bs v buf offset size = .ok (.success, offset', buf') := by
  have hle : u32 (offset + size) ≤ dataBlockAllocSize * fileMaxBlocks :=
    Nat.le_trans (Nat.mod_le _ _) hmax
  unfold readInode
  rw [if_neg (Nat.not_lt.mpr hle)]
  exact readBlocks_total hin size _ _ _ _ _ (Or.inr rfl) (Nat.le_refl _) (by omega) hblocks

end LibfsSpecs
