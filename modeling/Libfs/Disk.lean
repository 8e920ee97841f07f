import Libfs.StepSpecs

/-! # The data file, the block table and the inodes

    `Wrote` says what a call of `write_inode` does to the slots and to the
    bytes; `Sound` is what ties the inodes, the block table and the data file
    together in every state of every run. -/

namespace LibfsSpecs

open LibfsHeap LibfsStdio LibfsCommon LibfsInode LibfsOperations LibfsRun

/-- The bytes of the data file. -/
def BlockStore.file (bs : BlockStore) : Bytes := bs.data.getD []

/-- The number of blocks in the data file. -/
def fileBlocks (bs : BlockStore) : Nat := (BlockStore.file bs).length / dataBlockAllocSize

/-- Slot `b` is allocated. -/
def Taken (bs : BlockStore) (b : Nat) : Prop := ∃ n, bs.dataBlockTable[b]? = some ⟨true, n⟩

/-- The inode at `a` names slot `b` at position `i`. -/
def Refs (t : Table Inode) (a i b : Nat) : Prop :=
  ∃ v, (a, v) ∈ t.live ∧ v.dataBlocks[i]? = some (b + 1)

theorem taken_lt {bs : BlockStore} {b : Nat} (h : Taken bs b) : b < numOfDataBlocks := by
  obtain ⟨n, hn⟩ := h
  by_contra hge
  rw [Vector.getElem?_eq_none (by omega)] at hn
  exact nomatch hn

/-- A slot of the table is taken or free. -/
theorem isFree_iff {bs : BlockStore} {b : Nat} :
    isFree bs.dataBlockTable b = true ↔ b < numOfDataBlocks ∧ ¬ Taken bs b := by
  unfold isFree Taken
  by_cases hlt : b < numOfDataBlocks
  · rw [Vector.getElem?_eq_getElem hlt]
    generalize bs.dataBlockTable[b] = entry
    obtain ⟨allocated, index⟩ := entry
    cases allocated with
    | true => simp
    | false => simp [hlt]
  · rw [Vector.getElem?_eq_none (by omega)]
    simp [hlt]

/-! ## One write -/

/-- What a write of the inode `v` did: the slots `ks`, the lowest free ones,
    are now its blocks from position `p` on, the file grew by as many blocks,
    and of the old bytes only those of the block the write started in may
    have changed. -/
structure Wrote (bs bs' : BlockStore) (v v' : Inode) (start p : Nat) (ks : List Nat) : Prop where
  index : v'.index = v.index
  refCount : v'.refCount = v.refCount
  blocks : v'.dataBlocks = putBlocks v.dataBlocks p ks
  table : bs'.dataBlockTable = occupySlots v.index bs.dataBlockTable ks
  lowest : ks = (freeSlots bs.dataBlockTable).take ks.length
  fits : p + ks.length ≤ fileMaxBlocks ∨ ks = []
  after : start ≤ p
  length : (BlockStore.file bs').length
    = (BlockStore.file bs).length + dataBlockAllocSize * ks.length
  bytes : ∀ j, j < (BlockStore.file bs).length →
    v.dataBlocks[start]? ≠ some (j / dataBlockAllocSize + 1) →
    (BlockStore.file bs')[j]? = (BlockStore.file bs)[j]?

/-- The update of the first block, as bytes of the file. -/
theorem updated_file_eq {bs : BlockStore} {v : Inode} (hin : BlocksInside bs v) {buf : Bytes}
    {offset size k : Nat} (hs : startsInside v offset size = true)
    (hk : v.dataBlocks[offset / dataBlockAllocSize]? = some (k + 1)) :
    BlockStore.file (updated bs v buf offset size)
      = fwriteAt (BlockStore.file bs) (dataBlockAllocSize * k + offset % dataBlockAllocSize)
        (buf.take (headSize v offset size)) := by
  obtain ⟨-, hfile⟩ := hin _ k hk
  unfold updated BlockStore.file
  rw [if_pos hs, hk]
  cases hd : bs.data with
  | none =>
      rw [hd] at hfile
      simp at hfile
  | some file => rfl

/-- It fits into the block. -/
theorem headSize_fits {bs : BlockStore} {v : Inode} (hin : BlocksInside bs v) (buf : Bytes)
    {offset size k : Nat} (hs : startsInside v offset size = true)
    (hk : v.dataBlocks[offset / dataBlockAllocSize]? = some (k + 1)) :
    offset % dataBlockAllocSize + (buf.take (headSize v offset size)).length
        ≤ dataBlockAllocSize ∧
      dataBlockAllocSize * k + offset % dataBlockAllocSize
        + (buf.take (headSize v offset size)).length ≤ (BlockStore.file bs).length := by
  have hfile : dataBlockAllocSize * (k + 1) ≤ (BlockStore.file bs).length := (hin _ k hk).2
  have hrem : offset % dataBlockAllocSize < dataBlockAllocSize := Nat.mod_lt _ (by decide)
  rw [headSize_inside hs, List.length_take]
  rw [Nat.mul_succ] at hfile
  omega

/-- The update of the first block stays inside that block. -/
theorem updated_file {bs : BlockStore} {v : Inode} (hin : BlocksInside bs v) (buf : Bytes)
    (offset size : Nat) :
    (BlockStore.file (updated bs v buf offset size)).length = (BlockStore.file bs).length ∧
      ∀ j, v.dataBlocks[offset / dataBlockAllocSize]? ≠ some (j / dataBlockAllocSize + 1) →
        (BlockStore.file (updated bs v buf offset size))[j]? = (BlockStore.file bs)[j]? := by
  by_cases hs : startsInside v offset size = true
  · obtain ⟨k, hk, -⟩ := startsInside_iff.mp hs
    obtain ⟨hblock, hfit⟩ := headSize_fits hin buf hs hk
    rw [updated_file_eq hin hs hk]
    refine ⟨fwriteAt_length hfit, fun j hj => ?_⟩
    rw [fwriteAt_getElem? hfit, if_neg]
    rintro ⟨h1, h2⟩
    refine hj ?_
    rw [hk]
    congr 1
    simp only [dataBlockAllocSize] at h1 h2 hblock ⊢
    omega
  · have hupd : updated bs v buf offset size = bs := if_neg hs
    rw [hupd]
    exact ⟨rfl, fun _ _ => rfl⟩

theorem updated_table (bs : BlockStore) (v : Inode) (buf : Bytes) (offset size : Nat) :
    (updated bs v buf offset size).dataBlockTable = bs.dataBlockTable := by
  unfold updated
  split <;> rfl

/-- It only matters which blocks an inode names. -/
theorem BlocksInside.congr {bs : BlockStore} {v v' : Inode} (hin : BlocksInside bs v)
    (hsame : v'.dataBlocks = v.dataBlocks) : BlocksInside bs v' := by
  intro i k hk
  rw [hsame] at hk
  exact hin i k hk

theorem BlocksInside.start {bs : BlockStore} {v : Inode} (hin : BlocksInside bs v) (i k : Nat)
    (hk : v.dataBlocks[i]? = some (k + 1)) : k < numOfDataBlocks ∧ bs.data ≠ none := by
  obtain ⟨hlt, hfile⟩ := hin i k hk
  refine ⟨hlt, fun hnone => ?_⟩
  rw [hnone] at hfile
  simp at hfile

/-- The new blocks of a write fit the inode. -/
theorem newCount_fits {v : Inode} {offset size : Nat}
    (hmax : u32 (offset + size) ≤ dataBlockAllocSize * fileMaxBlocks) :
    firstNew v offset size + newCount v offset size ≤ fileMaxBlocks ∨
      newCount v offset size = 0 := by
  have htotal := totalBlocks_le hmax
  have hcount : rounds offset size
      = totalBlocks (u32 (offset + size)) - offset / dataBlockAllocSize := rfl
  by_cases hstart : startsInside v offset size = true
  · rw [firstNew_inside hstart, newCount_inside hstart]
    omega
  · rw [firstNew_outside hstart, newCount_outside hstart]
    omega

/-- The slots a write takes. -/
def newSlots (bs : BlockStore) (v : Inode) (offset size : Nat) : List Nat :=
  (freeSlots bs.dataBlockTable).take (newCount v offset size)

/-- The block table and the data file after a write. -/
def storeAfter (bs : BlockStore) (v : Inode) (buf : Bytes) (offset size : Nat) : BlockStore where
  dataBlockTable := occupySlots v.index bs.dataBlockTable (newSlots bs v offset size)
  data := appendBlocks (updated bs v buf offset size).data (tailData v buf offset size)
    (newSlots bs v offset size).length

/-- The inode after a write, its size apart. -/
def inodeAfter (bs : BlockStore) (v : Inode) (offset size : Nat) : Inode :=
  { v with dataBlocks :=
      putBlocks v.dataBlocks (firstNew v offset size) (newSlots bs v offset size) }

theorem newSlots_length_le (bs : BlockStore) (v : Inode) (offset size : Nat) :
    (newSlots bs v offset size).length ≤ newCount v offset size := by
  unfold newSlots
  rw [List.length_take]
  exact Nat.min_le_left ..

theorem newSlots_length {bs : BlockStore} {v : Inode} {offset size : Nat} :
    (newSlots bs v offset size).length = newCount v offset size ↔
      newCount v offset size ≤ (freeSlots bs.dataBlockTable).length := by
  unfold newSlots
  rw [List.length_take]
  omega

theorem file_storeAfter (bs : BlockStore) (v : Inode) (buf : Bytes) (offset size : Nat) :
    BlockStore.file (storeAfter bs v buf offset size)
      = BlockStore.file (updated bs v buf offset size)
        ++ paddedBlocks (tailData v buf offset size) (newSlots bs v offset size).length :=
  appendBlocks_getD _ _ _

/-- A write succeeds if there are as many free slots as it needs, and takes
    those there are if not. -/
theorem writeInode_after {bs : BlockStore} {v : Inode} (hin : BlocksInside bs v) {buf : Bytes}
    {offset size : Nat} (hbuf : size ≤ buf.length)
    (hmax : u32 (offset + size) ≤ dataBlockAllocSize * fileMaxBlocks) :
    writeInode bs v buf offset size = .ok
      (if newCount v offset size ≤ (freeSlots bs.dataBlockTable).length then
        (.success, { inodeAfter bs v offset size with stat.stSize := u32 (offset + size) },
          u32 (offset + size), storeAfter bs v buf offset size)
      else (.failure, inodeAfter bs v offset size, offset, storeAfter bs v buf offset size)) := by
  rw [writeInode_eq hbuf hmax fun k hk => hin.start _ k hk]
  have htbl := updated_table bs v buf offset size
  have hfill : filled (updated bs v buf offset size) v (firstNew v offset size)
      (newCount v offset size) (tailData v buf offset size)
      = (if (newSlots bs v offset size).length = newCount v offset size then .success else .failure,
        inodeAfter bs v offset size, storeAfter bs v buf offset size) := by
    unfold filled
    rw [htbl]
    rfl
  unfold writeResult
  simp only [hfill]
  by_cases hall : newCount v offset size ≤ (freeSlots bs.dataBlockTable).length
  · simp only [if_pos hall, if_pos (newSlots_length.mpr hall), if_true]
  · have hless : ¬ (newSlots bs v offset size).length = newCount v offset size :=
      fun h => hall (newSlots_length.mp h)
    simp only [if_neg hall, if_neg hless]
    exact congrArg Except.ok (if_neg (by decide))

/-- Every call of `write_inode` that returns is of this kind. -/
theorem wrote_of_writeInode {bs bs' : BlockStore} {v v' : Inode} {buf : Bytes}
    {offset offset' size : Nat} {st : Status} (hbuf : size ≤ buf.length)
    (h : writeInode bs v buf offset size = .ok (st, v', offset', bs')) (hin : BlocksInside bs v) :
    ∃ p ks, Wrote bs bs' v v' (offset / dataBlockAllocSize) p ks ∧
      (ks ≠ [] → p = firstNew v offset size ∧ ks.length ≤ newCount v offset size) := by
  by_cases hmax : u32 (offset + size) ≤ dataBlockAllocSize * fileMaxBlocks
  · have hcount := newSlots_length_le bs v offset size
    obtain ⟨hlen, hbytes⟩ := updated_file hin buf offset size
    have hfile := file_storeAfter bs v buf offset size
    refine ⟨firstNew v offset size, newSlots bs v offset size, ?_, fun _ => ⟨rfl, hcount⟩⟩
    have hlow : newSlots bs v offset size
        = (freeSlots bs.dataBlockTable).take (newSlots bs v offset size).length := by
      rw [show (newSlots bs v offset size).length
        = min (newCount v offset size) (freeSlots bs.dataBlockTable).length from List.length_take]
      show (freeSlots bs.dataBlockTable).take _ = _
      rw [← List.take_take, List.take_length]
    have hfits : firstNew v offset size + (newSlots bs v offset size).length ≤ fileMaxBlocks ∨
        newSlots bs v offset size = [] := by
      rcases newCount_fits (v := v) hmax with hf | hz
      · exact Or.inl (by omega)
      · exact Or.inr (List.eq_nil_of_length_eq_zero (by omega))
    have hafter : bs' = storeAfter bs v buf offset size ∧ v'.index = v.index ∧
        v'.refCount = v.refCount ∧ v'.dataBlocks = (inodeAfter bs v offset size).dataBlocks := by
      rw [writeInode_after hin hbuf hmax] at h
      split at h
      · cases h
        exact ⟨rfl, rfl, rfl, rfl⟩
      · cases h
        exact ⟨rfl, rfl, rfl, rfl⟩
    obtain ⟨rfl, hindex, hrefs, hblocks⟩ := hafter
    refine ⟨hindex, hrefs, hblocks, rfl, hlow, hfits, Nat.le_add_right .., ?_, fun j hj hne => ?_⟩
    · rw [hfile, List.length_append, paddedBlocks_length, hlen]
    · rw [hfile, List.getElem?_append_left (by rw [hlen]; exact hj)]
      exact hbytes j hne
  · rw [writeInode_too_long (Nat.not_le.mp hmax)] at h
    cases h
    exact ⟨offset / dataBlockAllocSize, [], ⟨rfl, rfl, rfl, rfl, rfl, Or.inr rfl, Nat.le_refl _, rfl,
      fun _ _ _ => rfl⟩, fun hne => absurd rfl hne⟩

/-- A taken slot after a write. -/
theorem Wrote.taken_iff {bs bs' : BlockStore} {v v' : Inode} {start p : Nat} {ks : List Nat}
    (h : Wrote bs bs' v v' start p ks) {b : Nat} : Taken bs' b ↔ b ∈ ks ∨ Taken bs b := by
  have hks : ∀ k ∈ ks, k < numOfDataBlocks := fun k hk => by
    rw [h.lowest] at hk
    exact freeSlots_lt (List.mem_of_mem_take hk)
  constructor
  · intro ht
    have hlt := taken_lt ht
    obtain ⟨n, hn⟩ := ht
    rw [h.table, occupySlots_getElem? _ _ _ _ hlt] at hn
    by_cases hmem : b ∈ ks
    · exact Or.inl hmem
    · rw [if_neg hmem] at hn
      exact Or.inr ⟨n, hn⟩
  · intro ht
    have hlt : b < numOfDataBlocks := by
      rcases ht with hmem | ht
      · exact hks b hmem
      · exact taken_lt ht
    by_cases hmem : b ∈ ks
    · exact ⟨v.index, by rw [h.table, occupySlots_getElem? _ _ _ _ hlt, if_pos hmem]⟩
    · rcases ht with hmem' | ⟨n, hn⟩
      · exact absurd hmem' hmem
      · exact ⟨n, by rw [h.table, occupySlots_getElem? _ _ _ _ hlt, if_neg hmem]; exact hn⟩

/-- The slots a write takes were free. -/
theorem Wrote.fresh {bs bs' : BlockStore} {v v' : Inode} {start p : Nat} {ks : List Nat}
    (h : Wrote bs bs' v v' start p ks) {b : Nat} (hb : b ∈ ks) : ¬ Taken bs b := by
  rw [h.lowest] at hb
  exact (isFree_iff.mp (mem_freeSlots.mp (List.mem_of_mem_take hb))).2

/-- A position of the inode after a write: a new slot or what was there. -/
theorem Wrote.block_cases {bs bs' : BlockStore} {v v' : Inode} {start p : Nat} {ks : List Nat}
    (h : Wrote bs bs' v v' start p ks) {i b : Nat} (hb : v'.dataBlocks[i]? = some (b + 1)) :
    (p ≤ i ∧ ks[i - p]? = some b) ∨
      (¬ (p ≤ i ∧ i < p + ks.length) ∧ v.dataBlocks[i]? = some (b + 1)) := by
  have hi : i < fileMaxBlocks := by
    by_contra hge
    rw [Vector.getElem?_eq_none (by omega)] at hb
    exact nomatch hb
  rw [h.blocks, putBlocks_getElem? _ _ _ _ hi] at hb
  by_cases hin : p ≤ i ∧ i < p + ks.length
  · rw [if_pos hin] at hb
    obtain ⟨k, hk, he⟩ := Option.map_eq_some_iff.mp hb
    exact Or.inl ⟨hin.1, by rw [hk]; exact congrArg some (Nat.succ.inj he)⟩
  · rw [if_neg hin] at hb
    exact Or.inr ⟨hin, hb⟩

/-- When the taken slots are below `n`, the lowest free one is not above it. -/
theorem lowest_free_le {tbl : Vector DataBlock numOfDataBlocks} {n k : Nat} {rest : List Nat}
    (hin : ∀ b, isFree tbl b = false → b < numOfDataBlocks → b < n)
    (hfree : freeSlots tbl = k :: rest) : k ≤ n := by
  by_contra hgt
  have hkmem : k ∈ freeSlots tbl := by
    rw [hfree]
    exact List.mem_cons_self ..
  have hn : n < numOfDataBlocks := by have := freeSlots_lt hkmem; omega
  -- the slot `n` is free too, and comes before `k`
  have hnfree : isFree tbl n = true := by
    by_contra hne
    exact Nat.lt_irrefl n (hin n (Bool.eq_false_iff.mpr hne) hn)
  have hsort := freeSlots_sorted tbl
  have hmem : n ∈ freeSlots tbl := mem_freeSlots.mpr hnfree
  rw [hfree] at hsort hmem
  rcases List.mem_cons.mp hmem with he | hr
  · omega
  · have := (List.pairwise_cons.mp hsort).1 n hr
    omega

/-- As long as all taken slots lie inside a file of `n` blocks, the lowest free
    slots are at most the next ones behind it. -/
theorem lowest_inside (index : Nat) (ks : List Nat) :
    ∀ (tbl : Vector DataBlock numOfDataBlocks) (n : Nat),
      (∀ b, isFree tbl b = false → b < numOfDataBlocks → b < n) →
      ks = (freeSlots tbl).take ks.length →
      ∀ b, isFree (occupySlots index tbl ks) b = false → b < numOfDataBlocks →
        b < n + ks.length := by
  induction ks with
  | nil =>
      intro tbl n hin _ b hb hlt
      exact hin b hb hlt
  | cons k ks ih =>
      intro tbl n hin hlow b hb hlt
      cases hfree : freeSlots tbl with
      | nil =>
          rw [hfree] at hlow
          exact nomatch hlow
      | cons k' rest =>
          rw [hfree, List.length_cons, List.take_succ_cons] at hlow
          obtain ⟨rfl, hks⟩ := List.cons.inj hlow
          have hk := lowest_free_le hin hfree
          have hnext := ih (tbl.setIfInBounds k ⟨true, index⟩) (n + 1) ?_
            (by rw [freeSlots_set hfree]; exact hks) b hb hlt
          · rw [List.length_cons]
            omega
          · intro c hc hclt
            by_cases hck : c = k
            · omega
            · have := hin c ?_ hclt
              · omega
              · unfold isFree at hc ⊢
                rwa [Vector.getElem?_setIfInBounds_ne (fun e => hck e.symm)] at hc

/-! ## What holds between the tables and the file -/

/-- The file is a number of whole blocks, a taken slot lies inside it, an
    inode names taken slots only, and no slot is named twice. -/
structure Sound (t : Table Inode) (bs : BlockStore) : Prop where
  whole : (BlockStore.file bs).length = dataBlockAllocSize * fileBlocks bs
  inside : ∀ b, Taken bs b → b < fileBlocks bs
  taken : ∀ a i b, Refs t a i b → Taken bs b
  once : ∀ a i a' i' b, Refs t a i b → Refs t a' i' b → a = a' ∧ i = i'

theorem Sound.blocksInside {t : Table Inode} {bs : BlockStore} (h : Sound t bs) {a : Nat}
    {v : Inode} (hv : (a, v) ∈ t.live) : BlocksInside bs v := by
  intro i k hk
  have ht := h.taken a i k ⟨v, hv, hk⟩
  refine ⟨taken_lt ht, ?_⟩
  have hlt := h.inside k ht
  show _ ≤ (BlockStore.file bs).length
  rw [h.whole]
  exact Nat.mul_le_mul_left _ hlt

theorem Sound.byte_inside {t : Table Inode} {bs : BlockStore} (h : Sound t bs) {k r : Nat}
    (hk : k < fileBlocks bs) (hr : r < dataBlockAllocSize) :
    dataBlockAllocSize * k + r < (BlockStore.file bs).length := by
  rw [h.whole]
  exact byte_lt hk hr

/-- Fewer references to the same blocks. -/
theorem Sound.mono {t t' : Table Inode} {bs : BlockStore} (h : Sound t bs)
    (hr : ∀ a i b, Refs t' a i b → Refs t a i b) : Sound t' bs where
  whole := h.whole
  inside := h.inside
  taken := fun a i b hb => h.taken a i b (hr a i b hb)
  once := fun a i a' i' b hb hb' => h.once a i a' i' b (hr a i b hb) (hr a' i' b hb')

theorem refs_replaced {t t' : Table Inode} {a : Nat} {v v' : Inode}
    (h : t.Replaced t' a v v') {c i b : Nat} :
    Refs t' c i b ↔ (c ≠ a ∧ Refs t c i b) ∨ (c = a ∧ v'.dataBlocks[i]? = some (b + 1)) := by
  constructor
  · rintro ⟨w, hw, hb⟩
    rcases h.mem.mp hw with ⟨hne, hw⟩ | he
    · exact Or.inl ⟨hne, w, hw, hb⟩
    · cases he
      exact Or.inr ⟨rfl, hb⟩
  · rintro (⟨hne, w, hw, hb⟩ | ⟨rfl, hb⟩)
    · exact ⟨w, h.mem.mpr (Or.inl ⟨hne, hw⟩), hb⟩
    · exact ⟨v', h.mem.mpr (Or.inr rfl), hb⟩

/-- An update that leaves the blocks alone. -/
theorem refs_touched {t t' : Table Inode} {l r : List (Nat × Inode)} {a : Nat} {v v' : Inode}
    (h : t.Updated t' l r a v v') (hb : v'.dataBlocks = v.dataBlocks) {c i b : Nat} :
    Refs t' c i b ↔ Refs t c i b := by
  rw [refs_replaced h.replaced, hb]
  constructor
  · rintro (⟨-, hr⟩ | ⟨rfl, hr⟩)
    · exact hr
    · exact ⟨v, h.mem_old, hr⟩
  · rintro ⟨w, hw, hr⟩
    by_cases hca : c = a
    · subst hca
      rw [Heap.live_unique hw h.mem_old] at hr
      exact Or.inr ⟨rfl, hr⟩
    · exact Or.inl ⟨hca, w, hw, hr⟩

/-- A new inode names no slot. -/
theorem refs_pushed {t t' : Table Inode} {a : Nat} {v : Inode} (h : t.Pushed t' a v)
    (hv : v.dataBlocks = Vector.replicate fileMaxBlocks 0) {c i b : Nat} :
    Refs t' c i b ↔ Refs t c i b := by
  constructor
  · rintro ⟨w, hw, hb⟩
    rcases h.mem.mp hw with hw | he
    · exact ⟨w, hw, hb⟩
    · cases he
      rw [hv, Vector.getElem?_replicate] at hb
      split at hb
      · exact nomatch hb
      · exact nomatch hb
  · rintro ⟨w, hw, hb⟩
    exact ⟨w, h.mem.mpr (Or.inl hw), hb⟩

theorem refs_detached {t t' : Table Inode} {l r : List (Nat × Inode)} {a : Nat} {v : Inode}
    (h : t.Detached t' l r a v) {c i b : Nat} : Refs t' c i b ↔ c ≠ a ∧ Refs t c i b := by
  constructor
  · rintro ⟨w, hw, hb⟩
    obtain ⟨hne, hw⟩ := h.mem.mp hw
    exact ⟨hne, w, hw, hb⟩
  · rintro ⟨hne, w, hw, hb⟩
    exact ⟨w, h.mem.mpr ⟨hne, hw⟩, hb⟩

theorem Sound.touched {t t' : Table Inode} {bs : BlockStore} (hs : Sound t bs)
    {l r : List (Nat × Inode)} {a : Nat} {v v' : Inode} (hup : t.Updated t' l r a v v')
    (hsame : SameFile v v') : Sound t' bs :=
  hs.mono fun _ _ _ => (refs_touched hup hsame.blocks).mp

theorem Sound.pushed {t t' : Table Inode} {bs : BlockStore} (hs : Sound t bs) {a : Nat}
    {v : Inode} (hp : t.Pushed t' a v) (hv : v.dataBlocks = Vector.replicate fileMaxBlocks 0) :
    Sound t' bs :=
  hs.mono fun _ _ _ => (refs_pushed hp hv).mp

/-- A write keeps slots and bytes in step. -/
theorem Sound.wrote {t t' : Table Inode} {bs bs' : BlockStore} (hs : Sound t bs)
    {a : Nat} {v v₀ v' : Inode} {start p : Nat} {ks : List Nat}
    (hup : t.Replaced t' a v v') (hw : Wrote bs bs' v₀ v' start p ks)
    (hsame : v₀.dataBlocks = v.dataBlocks) : Sound t' bs' := by
  have hblocks : fileBlocks bs' = fileBlocks bs + ks.length := by
    unfold fileBlocks
    rw [hw.length, hs.whole]
    simp only [dataBlockAllocSize]
    omega
  have hnodup : ks.Nodup := by
    rw [hw.lowest]
    exact ((freeSlots_sorted _).imp Nat.ne_of_lt).sublist (List.take_sublist ..)
  have hcases : ∀ c i b, Refs t' c i b →
      (c = a ∧ p ≤ i ∧ ks[i - p]? = some b) ∨ Refs t c i b := by
    intro c i b hr
    rcases (refs_replaced hup).mp hr with ⟨-, hr⟩ | ⟨rfl, hb⟩
    · exact Or.inr hr
    · rcases hw.block_cases hb with hnew | ⟨-, hold⟩
      · exact Or.inl ⟨rfl, hnew⟩
      · exact Or.inr ⟨v, hup.old, by rw [← hsame]; exact hold⟩
  constructor
  case whole =>
    rw [hw.length, hs.whole, hblocks, Nat.mul_add]
  case inside =>
    intro b hb
    rw [hblocks]
    have hfree : isFree (occupySlots v₀.index bs.dataBlockTable ks) b = false := by
      rw [← hw.table]
      exact Bool.eq_false_iff.mpr fun h => (isFree_iff.mp h).2 hb
    refine lowest_inside v₀.index ks bs.dataBlockTable (fileBlocks bs) ?_ hw.lowest b hfree
      (taken_lt hb)
    intro c hc hlt
    refine hs.inside c ?_
    by_contra hnot
    rw [isFree_iff.mpr ⟨hlt, hnot⟩] at hc
    exact nomatch hc
  case taken =>
    intro c i b hr
    rcases hcases c i b hr with ⟨-, -, hk⟩ | hr
    · exact hw.taken_iff.mpr (Or.inl (List.mem_of_getElem? hk))
    · exact hw.taken_iff.mpr (Or.inr (hs.taken c i b hr))
  case once =>
    intro c i c' i' b hr hr'
    rcases hcases c i b hr with ⟨rfl, hp, hk⟩ | hold
    · rcases hcases c' i' b hr' with ⟨rfl, hp', hk'⟩ | hold'
      · have hii : i - p = i' - p :=
          (List.getElem?_inj (List.getElem?_eq_some_iff.mp hk).1 hnodup).mp (hk.trans hk'.symm)
        exact ⟨rfl, by omega⟩
      · exact absurd (hs.taken _ _ _ hold') (hw.fresh (List.mem_of_getElem? hk))
    · rcases hcases c' i' b hr' with ⟨rfl, -, hk'⟩ | hold'
      · exact absurd (hs.taken _ _ _ hold) (hw.fresh (List.mem_of_getElem? hk'))
      · exact hs.once c i c' i' b hold hold'

/-- A write to one file leaves the bytes of the others. -/
theorem bytes_of_others {t t' : Table Inode} {bs bs' : BlockStore} (hs : Sound t bs)
    {a : Nat} {v v₀ v' : Inode} {start p : Nat} {ks : List Nat}
    (hup : t.Replaced t' a v v') (hw : Wrote bs bs' v₀ v' start p ks)
    (hsame : v₀.dataBlocks = v.dataBlocks) {q : Nat × Inode} (hq : q ∈ t.live) (hne : q.1 ≠ a)
    (pos : Nat) : fileByte (BlockStore.file bs') q.2.dataBlocks pos
      = fileByte (BlockStore.file bs) q.2.dataBlocks pos := by
  unfold fileByte
  split
  · next k hk =>
      have href : Refs t q.1 (pos / dataBlockAllocSize) k := ⟨q.2, hq, hk⟩
      have hlt := hs.inside k (hs.taken _ _ _ href)
      have hrem : pos % dataBlockAllocSize < dataBlockAllocSize := Nat.mod_lt _ (by decide)
      refine hw.bytes _ (hs.byte_inside hlt hrem) ?_
      -- the block the write starts in belongs to the written file
      rw [byte_div hrem, hsame]
      intro hstart
      exact hne (hs.once _ _ a start k href ⟨v, hup.old, hstart⟩).1
  · rfl

/-! ## Freeing the blocks of an inode -/

/-- The blocks `unlink_inode` frees: those before the first zero. -/
def freedBlocks (blocks : List Nat) : List Nat := blocks.takeWhile fun b => decide (0 < b)

/-- The loop of `unlink_inode` clears the entries of these blocks. -/
theorem freeBlocks_ok (blocks : List Nat) :
    ∀ {tbl tbl' : Vector DataBlock numOfDataBlocks}, freeBlocks tbl blocks = .ok tbl' →
      ∀ j, j < numOfDataBlocks →
        tbl'[j]? = if j + 1 ∈ freedBlocks blocks then some ⟨false, 0⟩ else tbl[j]? := by
  induction blocks with
  | nil =>
      intro tbl tbl' h j _
      cases h
      exact (if_neg List.not_mem_nil).symm
  | cons block blocks ih =>
      intro tbl tbl' h j hj
      unfold freeBlocks at h
      by_cases hpos : block > 0
      · rw [if_pos hpos] at h
        by_cases hlt : block - 1 < numOfDataBlocks
        · rw [if_pos hlt] at h
          have hcons : freedBlocks (block :: blocks) = block :: freedBlocks blocks :=
            List.takeWhile_cons_of_pos (by simpa using hpos)
          rw [ih h j hj, hcons, Vector.getElem?_setIfInBounds]
          by_cases hmem : j + 1 ∈ freedBlocks blocks
          · rw [if_pos hmem, if_pos (List.mem_cons_of_mem _ hmem)]
          · by_cases hbj : block - 1 = j
            · rw [if_neg hmem, if_pos hbj, if_pos hlt,
                if_pos (by rw [show j + 1 = block by omega]; exact List.mem_cons_self ..)]
            · rw [if_neg hmem, if_neg hbj, if_neg]
              intro hm
              rcases List.mem_cons.mp hm with he | hm
              · omega
              · exact hmem hm
        · rw [if_neg hlt] at h
          exact nomatch h
      · rw [if_neg hpos] at h
        cases h
        have hcons : freedBlocks (block :: blocks) = [] :=
          List.takeWhile_cons_of_neg (by simpa using hpos)
        rw [hcons, if_neg List.not_mem_nil]

/-- A freed block is one the inode named. -/
theorem mem_freedBlocks {v : Inode} {b : Nat} (h : b + 1 ∈ freedBlocks v.dataBlocks.toList) :
    ∃ i : Nat, v.dataBlocks[i]? = some (b + 1) := by
  have hmem : b + 1 ∈ v.dataBlocks.toList := (List.takeWhile_sublist _).subset h
  obtain ⟨i, hi⟩ := List.mem_iff_getElem?.mp hmem
  exact ⟨i, by rwa [Vector.getElem?_toList] at hi⟩

/-- A taken slot after the blocks of an inode were freed. -/
theorem taken_freed {bs : BlockStore} {tbl : Vector DataBlock numOfDataBlocks} {blocks : List Nat}
    (h : freeBlocks bs.dataBlockTable blocks = .ok tbl) {b : Nat} :
    Taken { bs with dataBlockTable := tbl } b ↔ Taken bs b ∧ b + 1 ∉ freedBlocks blocks := by
  constructor
  · intro ht
    have hlt := taken_lt ht
    obtain ⟨n, hn⟩ := ht
    have hn' : tbl[b]? = some ⟨true, n⟩ := hn
    rw [freeBlocks_ok blocks h b hlt] at hn'
    by_cases hmem : b + 1 ∈ freedBlocks blocks
    · rw [if_pos hmem] at hn'
      cases hn'
    · rw [if_neg hmem] at hn'
      exact ⟨⟨n, hn'⟩, hmem⟩
  · rintro ⟨ht, hmem⟩
    have hlt := taken_lt ht
    obtain ⟨n, hn⟩ := ht
    refine ⟨n, ?_⟩
    show tbl[b]? = _
    rw [freeBlocks_ok blocks h b hlt, if_neg hmem]
    exact hn

/-- Freeing an inode with its blocks keeps the others' blocks. -/
theorem Sound.freed {t t' : Table Inode} {bs : BlockStore} (hs : Sound t bs)
    {l r : List (Nat × Inode)} {a : Nat} {v : Inode} {tbl : Vector DataBlock numOfDataBlocks}
    (hd : t.Detached t' l r a v) (hf : freeBlocks bs.dataBlockTable v.dataBlocks.toList = .ok tbl) :
    Sound t' { bs with dataBlockTable := tbl } := by
  have hmem : (a, v) ∈ t.live := by
    rw [hd.before]
    exact List.mem_append_right _ (List.mem_cons_self ..)
  constructor
  case whole => exact hs.whole
  case inside =>
    intro b hb
    exact hs.inside b ((taken_freed hf).mp hb).1
  case taken =>
    intro c i b hr
    obtain ⟨hne, hr⟩ := (refs_detached hd).mp hr
    refine (taken_freed hf).mpr ⟨hs.taken c i b hr, fun hin => ?_⟩
    obtain ⟨j, hj⟩ := mem_freedBlocks hin
    exact hne (hs.once c i a j b hr ⟨v, hmem, hj⟩).1
  case once =>
    intro c i c' i' b hr hr'
    exact hs.once c i c' i' b ((refs_detached hd).mp hr).2 ((refs_detached hd).mp hr').2

/-! ## In every state of every run -/

theorem sound_init : Sound State.init.inodeTable State.init.blocks where
  whole := rfl
  inside := by
    rintro b ⟨n, hn⟩
    have hn' : (Vector.replicate numOfDataBlocks (⟨false, 0⟩ : DataBlock))[b]? = some ⟨true, n⟩ := hn
    rw [Vector.getElem?_replicate] at hn'
    split at hn'
    · cases hn'
    · exact nomatch hn'
  taken := by
    rintro a i b ⟨v, hv, -⟩
    exact nomatch hv
  once := by
    rintro a i a' i' b ⟨v, hv, -⟩
    exact nomatch hv

/-- The data a write request carries is as long as it says. -/
theorem slice_all {buf data : Bytes} {n : Nat} (h : slice buf 0 n = .ok data) :
    data.length = n := by
  obtain ⟨hle, rfl⟩ := slice_ok h
  rw [List.length_take, List.length_drop]
  omega

theorem Change.sound {s s' : State} {e : Event} (hw : WellLinked s)
    (hs : Sound s.inodeTable s.blocks) (h : Change s e s') : Sound s'.inodeTable s'.blocks := by
  cases h with
  | refused => exact hs
  | created _ _ _ hi => exact hs.pushed hi rfl
  | touched _ _ hi hsame => exact hs.touched hi hsame
  | renamed => exact hs
  | linked _ _ _ _ hi => exact hs.touched hi ⟨rfl, rfl, rfl⟩
  | symlinked _ _ _ hi hn hp hip hc hic hcopy =>
      have h3 := ((hs.pushed hi rfl).touched hip ⟨rfl, rfl, rfl⟩).touched hic ⟨rfl, rfl, rfl⟩
      have hmid : WellLinked { s with inodeTable := _, filenameTable := _ } :=
        ⟨hic.wf, hn.wf, hw.descs, hw.headed⟩
      rcases copyContents_ok hmid hic.after hcopy with
        ⟨_, _, _, _, _, _, _, hbuf, hwr, -, hup, rfl⟩ | ⟨-, rfl⟩
      · obtain ⟨p, ks, hwrote, -⟩ := wrote_of_writeInode hbuf hwr (h3.blocksInside hup.mem_old)
        exact h3.wrote hup.replaced hwrote rfl
      · exact h3
  | opened _ _ _ _ _ _ hi => exact hs.touched hi ⟨rfl, rfl, rfl⟩
  | closed => exact hs
  | wrote _ hdata _ _ hv hwr _ hi =>
      have hin := hs.blocksInside hv.mem
      obtain ⟨p, ks, hwrote, -⟩ :=
        wrote_of_writeInode (slice_all hdata).ge hwr (hin.congr rfl)
      exact hs.wrote hi.replaced hwrote rfl
  | read _ _ _ _ _ _ hi => exact hs.touched hi ⟨rfl, rfl, rfl⟩
  | sought => exact hs
  | unlinkedName _ _ _ _ _ hi => exact hs.touched hi ⟨rfl, rfl, rfl⟩
  | unlinkedFile _ _ _ _ _ hi _ hi' hblk =>
      exact (hs.touched hi ⟨rfl, rfl, rfl⟩).freed hi' hblk

/-- What a new inode has, and what stays when an inode is touched or written,
    every inode has. -/
theorem Change.inodes_all {P : Inode → Prop} {s s' : State} {e : Event} (hw : WellLinked s)
    (hs : Sound s.inodeTable s.blocks) (h : Change s e s')
    (hnew : ∀ v, v.index = nextIndex s.inodeTable → v.stat.stSize = 0 → P v)
    (hsame : ∀ v v', SameFile v v' → P v → P v')
    (hwrite : ∀ bs bs' v v' buf offset size offset' st, BlocksInside bs v → size ≤ buf.length →
      writeInode bs v buf offset size = .ok (st, v', offset', bs') → P v → P v')
    (hall : s.inodeTable.All P) : s'.inodeTable.All P := by
  cases h with
  | refused => exact hall
  | created _ _ _ hi => exact hi.all hall (hnew _ rfl rfl)
  | touched _ _ hi hkeep => exact hi.replaced.all hall (hsame _ _ hkeep)
  | renamed => exact hall
  | linked _ _ _ _ hi => exact hi.replaced.all hall (hsame _ _ ⟨rfl, rfl, rfl⟩)
  | symlinked _ _ _ hi hn _ hip _ hic hcopy =>
      have hall₂ := hip.replaced.all (hi.all hall (hnew _ rfl rfl)) (hsame _ _ ⟨rfl, rfl, rfl⟩)
      have hall₃ := hic.replaced.all hall₂ (hsame _ _ ⟨rfl, rfl, rfl⟩)
      have hs₃ := ((hs.pushed hi rfl).touched hip ⟨rfl, rfl, rfl⟩).touched hic ⟨rfl, rfl, rfl⟩
      have hmid : WellLinked { s with inodeTable := _, filenameTable := _ } :=
        ⟨hic.wf, hn.wf, hw.descs, hw.headed⟩
      rcases copyContents_ok hmid hic.after hcopy with
        ⟨_, _, _, _, _, _, _, hbuf, hwr, -, hup, rfl⟩ | ⟨-, rfl⟩
      · have hin := hs₃.blocksInside hup.mem_old
        exact hup.replaced.all hall₃ (hwrite _ _ _ _ _ _ _ _ _ hin hbuf hwr)
      · exact hall₃
  | opened _ _ _ _ _ _ hi => exact hi.replaced.all hall (hsame _ _ ⟨rfl, rfl, rfl⟩)
  | closed => exact hall
  | @wrote _ _ _ _ _ _ _ _ _ v _ _ _ _ _ _ _ hdata _ _ hv hwr _ hi =>
      have hin : BlocksInside s.blocks (Inode.written v (e.env.clock 0)) :=
        (hs.blocksInside hv.mem).congr rfl
      refine hi.replaced.all hall ?_
      intro hold
      exact hwrite _ _ _ _ _ _ _ _ _ hin (slice_all hdata).ge hwr
        (hsame v _ ⟨rfl, rfl, rfl⟩ hold)
  | read _ _ _ _ _ _ hi => exact hi.replaced.all hall (hsame _ _ ⟨rfl, rfl, rfl⟩)
  | sought => exact hall
  | unlinkedName _ _ _ _ _ hi => exact hi.replaced.all hall (hsame _ _ ⟨rfl, rfl, rfl⟩)
  | unlinkedFile _ _ _ _ _ hi _ hi' =>
      exact hi'.all (hi.replaced.all hall (hsame _ _ ⟨rfl, rfl, rfl⟩))

/-- Slots, inodes and the data file are in step in every state of every run. -/
theorem sound_of_run {es : List Event} {s : State} (hr : ServiceRun es s) :
    Sound s.inodeTable s.blocks :=
  (invariant_of_change (fun s => Sound s.inodeTable s.blocks) sound_init
    (fun _ _ _ hw hs hc => hc.sound hw hs) hr).2

end LibfsSpecs
