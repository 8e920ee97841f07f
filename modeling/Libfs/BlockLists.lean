import Libfs.UniqueNames
import Libfs.ReadStops
import Libfs.FailedSymlinks

/-! # Block lists without holes

    `write_inode` and `unlink_inode` take it for granted that the blocks of an
    inode stand at the first positions of its list and that no descriptor is
    beyond them.  Writes, reads and seeks keep it so; what breaks it is a
    descriptor that outlives its file, when a new inode gets the old index. -/

namespace LibfsSpecs

open LibfsHeap LibfsStdio LibfsCommon LibfsInode LibfsOperations LibfsRun LibfsNumbering

/-! ## One inode -/

/-- The entries in use are the first `n`, and they hold the file. -/
structure Packed (v : Inode) (n : Nat) : Prop where
  fits : n ≤ fileMaxBlocks
  used : ∀ i b : Nat, v.dataBlocks[i]? = some b → (b ≠ 0 ↔ i < n)
  size : v.stat.stSize ≤ ((dataBlockAllocSize * n : Nat) : Int)

section OneInode

variable {bs bs' : BlockStore} {v v' : Inode} {buf buf' : Bytes} {n offset offset' size : Nat}
  {st : Status}

theorem Packed.same (h : Packed v n) (hsame : SameFile v v') : Packed v' n where
  fits := h.fits
  used := by
    intro i b hb
    rw [hsame.blocks] at hb
    exact h.used i b hb
  size := by
    rw [hsame.size]
    exact h.size

/-- A new inode. -/
theorem packed_empty (hblocks : v.dataBlocks = Vector.replicate fileMaxBlocks 0)
    (hsize : v.stat.stSize = 0) : Packed v 0 where
  fits := Nat.zero_le _
  used := by
    intro i b hb
    rw [hblocks, Vector.getElem?_replicate] at hb
    split at hb
    · cases hb
      exact iff_of_false (fun h => h rfl) (Nat.not_lt_zero i)
    · exact nomatch hb
  size := hsize.le

/-- A position that has a block is before the end of the list. -/
theorem Packed.of_present (h : Packed v n) {pos : Nat} (hp : Present v pos) :
    pos < dataBlockAllocSize * n := by
  obtain ⟨k, hk⟩ := hp
  have hlt := (h.used _ _ hk).mp (Nat.succ_ne_zero k)
  simp only [dataBlockAllocSize] at hlt ⊢
  omega

theorem Packed.present (h : Packed v n) {pos : Nat} (hlt : pos < dataBlockAllocSize * n) :
    Present v pos := by
  have hdiv : pos / dataBlockAllocSize < n := by
    simp only [dataBlockAllocSize] at hlt ⊢
    omega
  have hin : pos / dataBlockAllocSize < fileMaxBlocks := Nat.lt_of_lt_of_le hdiv h.fits
  rcases block_cases hin with hzero | hpresent
  · exact absurd rfl ((h.used _ _ hzero).mpr hdiv)
  · exact hpresent

/-- A position without block that a descriptor may have is the end of the
    list. -/
theorem Packed.aligned (h : Packed v n) (ho : offset ≤ dataBlockAllocSize * n)
    (hmiss : Missing v offset) : offset % dataBlockAllocSize = 0 := by
  have hge : ¬ offset < dataBlockAllocSize * n := fun hlt => (h.present hlt).not_missing hmiss
  rw [Nat.le_antisymm ho (Nat.not_lt.mp hge), Nat.mul_mod_right]

/-- The blocks up to the first zero are all blocks. -/
theorem Packed.freed (h : Packed v n) {i k : Nat} (hk : v.dataBlocks[i]? = some (k + 1)) :
    k + 1 ∈ freedBlocks v.dataBlocks.toList := by
  have hi : i < n := (h.used _ _ hk).mp (Nat.succ_ne_zero k)
  have hlist : v.dataBlocks.toList[i]? = some (k + 1) := by rw [Vector.getElem?_toList, hk]
  have hlen : i < v.dataBlocks.toList.length := (List.getElem?_eq_some_iff.mp hlist).1
  -- no zero stands at or before the position
  have hall : ∀ b ∈ v.dataBlocks.toList.take (i + 1), 0 < b := by
    intro b hb
    obtain ⟨j, hj⟩ := List.mem_iff_getElem?.mp hb
    rw [List.getElem?_take] at hj
    split at hj
    · next hlt =>
        rw [Vector.getElem?_toList] at hj
        exact Nat.pos_of_ne_zero ((h.used j b hj).mpr (by omega))
    · exact nomatch hj
  have hsplit : v.dataBlocks.toList = v.dataBlocks.toList.take (i + 1)
      ++ v.dataBlocks.toList.drop (i + 1) := (List.take_append_drop _ _).symm
  unfold freedBlocks
  rw [hsplit, List.takeWhile_append_of_pos fun b hb => decide_eq_true (hall b hb)]
  refine List.mem_append_left _ (List.mem_iff_getElem?.mpr ⟨i, ?_⟩)
  rw [List.getElem?_take_of_lt (Nat.lt_succ_self i)]
  exact hlist

/-- What a write appends to the list begins inside it or where it ends. -/
theorem Packed.firstNew_le (h : Packed v n) (ho : offset ≤ dataBlockAllocSize * n) :
    firstNew v offset size ≤ n := by
  by_cases hstart : startsInside v offset size = true
  · obtain ⟨k, hk, -⟩ := startsInside_iff.mp hstart
    have hlt := (h.used _ _ hk).mp (Nat.succ_ne_zero k)
    rw [firstNew_inside hstart]
    exact hlt
  · rw [firstNew_outside hstart]
    simp only [dataBlockAllocSize] at ho ⊢
    omega

/-- The list after a write. -/
theorem Packed.written (h : Packed v n) (ho : offset ≤ dataBlockAllocSize * n)
    (hmax : u32 (offset + size) ≤ fileEnd) :
    Packed (inodeAfter bs v offset size)
      (max n (firstNew v offset size + (newSlots bs v offset size).length)) := by
  have hfirst : firstNew v offset size ≤ n := h.firstNew_le ho
  have hlen := newSlots_length_le bs v offset size
  have hfits := h.fits
  constructor
  case fits =>
    rcases newCount_fits (v := v) hmax with hle | hzero
    · omega
    · omega
  case used =>
    intro i b hb
    have hlt : i < fileMaxBlocks := (Vector.getElem?_eq_some_iff.mp hb).1
    change (putBlocks v.dataBlocks _ _)[i]? = _ at hb
    rw [putBlocks_getElem? _ _ _ _ hlt] at hb
    by_cases hnew : firstNew v offset size ≤ i ∧
        i < firstNew v offset size + (newSlots bs v offset size).length
    · rw [if_pos hnew] at hb
      obtain ⟨k, -, rfl⟩ := Option.map_eq_some_iff.mp hb
      exact iff_of_true (Nat.succ_ne_zero k) (by omega)
    · rw [if_neg hnew] at hb
      rw [h.used i b hb]
      omega
  case size =>
    refine Int.le_trans h.size (Int.ofNat_le.mpr ?_)
    exact Nat.mul_le_mul_left _ (Nat.le_max_left ..)

/-- Where a write that has all its slots ends there is a block. -/
theorem end_le_blocks (v : Inode) (offset size : Nat) :
    u32 (offset + size) ≤ dataBlockAllocSize *
      (firstNew v offset size + newCount v offset size) := by
  refine Nat.le_trans (totalBlocks_bounds _).1 (Nat.mul_le_mul_left _ ?_)
  have hrounds : rounds offset size
      = totalBlocks (u32 (offset + size)) - offset / dataBlockAllocSize := rfl
  by_cases hstart : startsInside v offset size = true
  · obtain ⟨-, -, hpos⟩ := startsInside_iff.mp hstart
    rw [firstNew_inside hstart, newCount_inside hstart]
    omega
  · rw [firstNew_outside hstart, newCount_outside hstart]
    omega

/-- A write from within the list or its end keeps the list packed, and leaves
    the offset within it. -/
theorem writeInode_grown (hin : BlocksInside bs v) (hbuf : size ≤ buf.length)
    (hmax : u32 (offset + size) ≤ fileEnd)
    (hwrite : writeInode bs v buf offset size = .ok (st, v', offset', bs')) (h : Packed v n)
    (ho : offset ≤ dataBlockAllocSize * n) {m : Nat}
    (hm : m = max n (firstNew v offset size + (newSlots bs v offset size).length)) :
    Packed v' m ∧ offset' ≤ dataBlockAllocSize * m := by
  subst hm
  have hwritten : Packed (inodeAfter bs v offset size) _ := h.written ho hmax
  rw [writeInode_after hin hbuf hmax] at hwrite
  by_cases henough : newCount v offset size ≤ (freeSlots bs.dataBlockTable).length
  · rw [if_pos henough] at hwrite
    cases hwrite
    have hend : u32 (offset + size) ≤ dataBlockAllocSize *
        max n (firstNew v offset size + (newSlots bs v offset size).length) := by
      refine Nat.le_trans (end_le_blocks v offset size) (Nat.mul_le_mul_left _ ?_)
      rw [newSlots_length.mpr henough]
      exact Nat.le_max_right ..
    exact ⟨⟨hwritten.fits, hwritten.used, Int.ofNat_le.mpr hend⟩, hend⟩
  · rw [if_neg henough] at hwrite
    cases hwrite
    exact ⟨hwritten, Nat.le_trans ho (Nat.mul_le_mul_left _ (Nat.le_max_left ..))⟩

theorem writeInode_packed (hin : BlocksInside bs v) (hbuf : size ≤ buf.length)
    (hwrite : writeInode bs v buf offset size = .ok (st, v', offset', bs')) (h : Packed v n)
    (ho : offset ≤ dataBlockAllocSize * n) :
    ∃ m, n ≤ m ∧ Packed v' m ∧ offset' ≤ dataBlockAllocSize * m := by
  by_cases hmax : u32 (offset + size) ≤ fileEnd
  · exact ⟨_, Nat.le_max_left .., writeInode_grown hin hbuf hmax hwrite h ho rfl⟩
  · rw [writeInode_too_long (Nat.not_le.mp hmax)] at hwrite
    cases hwrite
    exact ⟨n, Nat.le_refl n, h, ho⟩

/-- A file whose list is packed can be read to its end. -/
theorem Packed.readable (h : Packed v n) : Readable v v.stat.stSize.toNat := by
  intro pos hpos
  have hsize := h.size
  exact h.present (by omega)

/-- A read leaves the offset within the list. -/
theorem readInode_packed (hin : BlocksInside bs v)
    (hread : readInode bs v buf offset size = .ok (st, offset', buf')) (h : Packed v n)
    (ho : offset ≤ dataBlockAllocSize * n) : offset' ≤ dataBlockAllocSize * n := by
  rcases readInode_stop hin hread with ⟨-, -, rfl⟩ | ⟨-, hstops⟩
  · exact ho
  · rcases Nat.eq_or_lt_of_le hstops.le with rfl | hlt
    · exact ho
    · -- the position before the offset was passed
      have hlast := h.of_present (hstops.passed (offset' - 1) (by omega) (by omega))
      omega

end OneInode

/-! ## The tables -/

/-- The block list of `v` is packed, and the descriptors with its index are
    within it. -/
def PackedFor (td : Table Descriptor) (v : Inode) : Prop :=
  ∃ n, Packed v n ∧
    ∀ q ∈ td.live, q.2.nodeIndex = v.index → q.2.offset ≤ dataBlockAllocSize * n

/-- No block list has a hole, and no descriptor is beyond one. -/
def NoHoles (ti : Table Inode) (td : Table Descriptor) : Prop := ∀ p ∈ ti.live, PackedFor td p.2

section Tables

variable {ti ti' : Table Inode} {td td' : Table Descriptor} {l r : List (Nat × Inode)}
  {ld rd : List (Nat × Descriptor)} {a b offset : Nat} {v v' : Inode} {d : Descriptor}

theorem PackedFor.same (h : PackedFor td v) (hsame : SameFile v v') : PackedFor td v' := by
  obtain ⟨n, hn, hq⟩ := h
  refine ⟨n, hn.same hsame, ?_⟩
  rw [hsame.index]
  exact hq

/-- Descriptors that are there already, or at the start. -/
theorem PackedFor.descs (h : PackedFor td v)
    (hq : ∀ q ∈ td'.live, q ∈ td.live ∨ q.2.offset = 0) : PackedFor td' v := by
  obtain ⟨n, hn, hoff⟩ := h
  refine ⟨n, hn, fun q hmem hnode => ?_⟩
  rcases hq q hmem with hold | hzero
  · exact hoff q hold hnode
  · rw [hzero]
    exact Nat.zero_le _

theorem NoHoles.updated (h : NoHoles ti td) (hup : ti.Updated ti' l r a v v')
    (hv : PackedFor td v') : NoHoles ti' td := by
  intro p hp
  rcases hup.mem.mp hp with ⟨-, hold⟩ | rfl
  · exact h p hold
  · exact hv

theorem NoHoles.touched (h : NoHoles ti td) (hup : ti.Updated ti' l r a v v')
    (hsame : SameFile v v') : NoHoles ti' td :=
  h.updated hup ((h _ hup.mem_old).same hsame)

theorem NoHoles.pushed (h : NoHoles ti td) (hp : ti.Pushed ti' a v) (hv : PackedFor td v) :
    NoHoles ti' td := by
  intro p hmem
  rcases hp.mem.mp hmem with hold | rfl
  · exact h p hold
  · exact hv

/-- A descriptor moved, and with it the inode it leads to may have grown. -/
theorem NoHoles.moved (h : NoHoles ti td) (hdist : (indices ti).Nodup) (hv : (a, v) ∈ ti.live)
    (hnodes : ∀ p ∈ ti'.live, (p.1 ≠ a ∧ p ∈ ti.live) ∨ p = (a, v')) (hindex : v'.index = v.index)
    (hd : td.Updated td' ld rd b d { d with offset := offset }) (hnode : d.nodeIndex = v.index)
    (hgrow : ∀ n, Packed v n → d.offset ≤ dataBlockAllocSize * n →
      ∃ m, n ≤ m ∧ Packed v' m ∧ offset ≤ dataBlockAllocSize * m) : NoHoles ti' td' := by
  intro p hp
  rcases hnodes p hp with ⟨hne, hold⟩ | rfl
  · obtain ⟨n, hn, hoff⟩ := h p hold
    refine ⟨n, hn, fun q hq he => ?_⟩
    rcases hd.mem.mp hq with ⟨-, hqold⟩ | rfl
    · exact hoff q hqold he
    · -- the descriptor that moved leads to the other inode
      have hsame : p = (a, v) := List.inj_on_of_nodup_map hdist hold hv (he.symm.trans hnode)
      exact absurd (congrArg Prod.fst hsame) hne
  · obtain ⟨n, hn, hoff⟩ := h _ hv
    obtain ⟨m, hle, hm, hend⟩ := hgrow n hn (hoff _ hd.mem_old hnode)
    refine ⟨m, hm, fun q hq he => ?_⟩
    rcases hd.mem.mp hq with ⟨-, hqold⟩ | rfl
    · exact Nat.le_trans (hoff q hqold (he.trans hindex)) (Nat.mul_le_mul_left _ hle)
    · exact hend

end Tables

/-! ## The copy of a soft link -/

/-- The number of blocks a request gives to the inode it adds: a copy takes as
    many as the file at the other name needs, or all there are. -/
def blocksGiven (s : State) : Request → Nat
  | .symlink args =>
      match s.inodeTable.live.find? fun p =>
          decide (p.2.index = nodeOf s.filenameTable args.filename) with
      | some p =>
          min (totalBlocks p.2.stat.stSize.toNat) (freeSlots s.blocks.dataBlockTable).length
      | none => 0
  | _ => 0

theorem blocksGiven_of_found {s : State} {args : SymlinkArgs} {l r : List (Nat × Inode)} {a : Nat}
    {v : Inode} (hf : FoundInode s.inodeTable (nodeOf s.filenameTable args.filename) l r a v) :
    blocksGiven s (.symlink args)
      = min (totalBlocks v.stat.stSize.toNat) (freeSlots s.blocks.dataBlockTable).length := by
  have hfind : s.inodeTable.live.find?
      (fun p => decide (p.2.index = nodeOf s.filenameTable args.filename)) = some (a, v) :=
    hf.find?_eq
  simp only [blocksGiven, hfind]

/-- The blocks a child without blocks gets from a copy. -/
theorem newSlots_of_empty {bs : BlockStore} {v : Inode} (h : Packed v 0) {size : Nat}
    (hsize : size ≤ fileEnd) :
    firstNew v 0 size + (newSlots bs v 0 size).length
      = min (totalBlocks size) (freeSlots bs.dataBlockTable).length := by
  have hstart : ¬ startsInside v 0 size = true := by
    intro hin
    obtain ⟨k, hk, -⟩ := startsInside_iff.mp hin
    exact Nat.not_lt_zero _ ((h.used _ _ hk).mp (Nat.succ_ne_zero k))
  have hu : u32 (0 + size) = size := by
    rw [Nat.zero_add]
    exact u32_of_lt (by simp only [fileEnd, dataBlockAllocSize, fileMaxBlocks] at hsize; omega)
  unfold newSlots
  rw [firstNew_outside hstart, newCount_outside hstart, List.length_take]
  unfold rounds
  rw [hu]
  simp only [Nat.zero_div, Nat.sub_zero, Nat.zero_add]

/-- A copy from a packed parent is made, and leaves the child packed. -/
theorem copyContents_packed {s s' : State} (hw : WellLinked s) (hs : Sound s.inodeTable s.blocks)
    {a b n : Nat} {p v : Inode} {st : Status} (hp : (a, p) ∈ s.inodeTable.live) (hfit : SizeFits p)
    (hpacked : Packed p n) {l r : List (Nat × Inode)} (hb : s.inodeTable.live = l ++ (b, v) :: r)
    (hv : Packed v 0) (hcopy : copyContents s a b = .ok (st, s')) :
    ∃ v', s.inodeTable.Updated s'.inodeTable l r b v v' ∧ v'.index = v.index ∧
      s'.descriptorTable = s.descriptorTable ∧
      Packed v' (min (totalBlocks p.stat.stSize.toNat)
        (freeSlots s.blocks.dataBlockTable).length) := by
  obtain ⟨k, hk⟩ := Int.eq_ofNat_of_zero_le hfit.1
  have hmax : k ≤ fileEnd := Int.ofNat_le.mp (hk ▸ hfit.2)
  have htoNat : p.stat.stSize.toNat = k := by omega
  have hmem : (b, v) ∈ s.inodeTable.live := by
    rw [hb]
    exact List.mem_append_right _ (List.mem_cons_self ..)
  obtain ⟨st₁, offset, buf, hread, hlen, hst⟩ := read_from_start (hs.blocksInside hp) hmax
  obtain rfl : st₁ = .success := hst.mpr (htoNat ▸ hpacked.readable)
  rw [copyContents_eq hp hk hmax, hread, ok_bind] at hcopy
  simp only [ne_eq, not_true_eq_false, if_false] at hcopy
  rw [Table.get_ok.mpr hmem, ok_bind] at hcopy
  obtain ⟨⟨st₂, v', offset', bs⟩, hwrite, hcopy⟩ := bind_ok_iff.mp hcopy
  obtain ⟨t, ht, hup⟩ := hw.inodes.put_split hb v'
  change (s.inodeTable.put b v' >>= _) = _ at hcopy
  rw [ht] at hcopy
  cases hcopy
  obtain ⟨_, _, hwrote, -⟩ := wrote_of_writeInode hlen.ge hwrite (hs.blocksInside hmem)
  refine ⟨v', hup, hwrote.index, rfl, ?_⟩
  rw [htoNat]
  refine (writeInode_grown (hs.blocksInside hmem) hlen.ge (Nat.le_trans (Nat.mod_le _ _) (by omega))
    hwrite hv (Nat.zero_le _) ?_).1
  rw [newSlots_of_empty hv hmax, Nat.zero_max]

/-! ## One request -/

/-- The index of a new inode is not in use: no inode has it, and no descriptor
    that has it stands behind the blocks the inode gets. -/
def IndexUnused (s : State) (e : Event) : Prop :=
  AddsInode s e.request →
    (∀ p ∈ s.inodeTable.live, p.2.index ≠ nextIndex s.inodeTable) ∧
    ∀ q ∈ s.descriptorTable.live, q.2.nodeIndex = nextIndex s.inodeTable →
      q.2.offset ≤ dataBlockAllocSize * blocksGiven s e.request

/-- The search for an index finds the same inode when one was added behind. -/
theorem FoundInode.pushed {t t' : Table Inode} {l r : List (Nat × Inode)} {a c k : Nat}
    {v w : Inode} (hf : FoundInode t k l r a v) (hp : t.Pushed t' c w) :
    FoundInode t' k l (r ++ [(c, w)]) a v where
  split := by rw [hp.after, hf.split, List.append_assoc, List.cons_append]
  passes := hf.passes
  first := hf.first

/-- A soft link: the new inode has the blocks of the copy, the others are as
    they were. -/
theorem NoHoles.linked {s s' : State} {e : Event} {args : SymlinkArgs} (hw : WellLinked s)
    (hs : Sound s.inodeTable s.blocks) (hfit : s.inodeTable.All SizeFits)
    (h : NoHoles s.inodeTable s.descriptorTable) (hguard : IndexUnused s e)
    (hreq : e.request = .symlink args) (hadds : AddsInode s e.request) {t₁ t₂ t₃ : Table Inode}
    {tn : Table FilenameInode} {a b c x : Nat} {lp rp lc rc : List (Nat × Inode)} {vp vc : Inode}
    (hi : s.inodeTable.Pushed t₁ c (softLink (nextIndex s.inodeTable) args.fileOwner
      args.fileGroup args.mode (e.env.clock 0)))
    (hn : s.filenameTable.Pushed tn x ⟨nextIndex s.inodeTable, args.linkname⟩)
    (hp : FoundInode t₁ (nodeOf s.filenameTable args.filename) lp rp a vp)
    (hip : t₁.Updated t₂ lp rp a vp { vp with stat.stAtim := e.env.clock 1 })
    (hc : FoundInode t₂ (nextIndex s.inodeTable) lc rc b vc)
    (hic : t₂.Updated t₃ lc rc b vc { vc with refCount := u32 (vc.refCount + 1) })
    (hcopy : copyContents { s with inodeTable := t₃, filenameTable := tn } a b
      = .ok (e.response.status, s')) : NoHoles s'.inodeTable s'.descriptorTable := by
  obtain ⟨hfresh, hoff⟩ := hguard hadds
  -- the parent is an old inode and the child is the new one
  obtain ⟨lo, ro, ao, vo, hold⟩ : ∃ l r a v,
      FoundInode s.inodeTable (nodeOf s.filenameTable args.filename) l r a v := by
    rw [hreq] at hadds
    obtain ⟨-, -, l, r, a, v, hf, -⟩ := hadds
    exact ⟨l, r, a, v, hf⟩
  obtain ⟨-, -, rfl, rfl⟩ := (hold.pushed hi).unique hp
  obtain ⟨rfl, hnew, -⟩ := child_is_new hi hip ⟨rfl, rfl, rfl⟩ rfl hfresh hc
  have hne : a ≠ b := by
    have hlt : a < s.inodeTable.heap.length := Heap.live_lt hold.mem
    rw [hi.fresh]
    exact Nat.ne_of_lt hlt
  have hparent : (a, { vp with stat.stAtim := e.env.clock 1 }) ∈ t₃.live :=
    hic.mem.mpr (Or.inl ⟨hne, hip.mem.mpr (Or.inr rfl)⟩)
  have hs₃ := ((hs.pushed hi rfl).touched hip ⟨rfl, rfl, rfl⟩).touched hic ⟨rfl, rfl, rfl⟩
  have hw₃ : WellLinked { s with inodeTable := t₃, filenameTable := tn } :=
    ⟨hic.wf, hn.wf, hw.descs, hw.headed⟩
  have hchild : Packed { vc with refCount := u32 (vc.refCount + 1) } 0 := by
    refine packed_empty ?_ ?_
    · show vc.dataBlocks = _
      rw [hnew.blocks]
      rfl
    · show vc.stat.stSize = 0
      rw [hnew.size]
      rfl
  obtain ⟨n, hpacked, -⟩ := h _ hold.mem
  obtain ⟨v', hup, hindex, hdescs, hv'⟩ := copyContents_packed hw₃ hs₃ hparent
    ((hfit _ hold.mem).same ⟨rfl, rfl, rfl⟩) (hpacked.same ⟨rfl, rfl, rfl⟩) hic.after hchild hcopy
  have hdescs' : s'.descriptorTable = s.descriptorTable := hdescs
  rw [hdescs']
  intro p hmem
  rcases hup.mem.mp hmem with ⟨hnb, hmem₃⟩ | rfl
  · -- an inode that is not the child comes from the state before
    have hmem₂ : p ∈ t₂.live := (hic.mem.mp hmem₃).elim And.right fun he => absurd (he ▸ rfl) hnb
    rcases hip.mem.mp hmem₂ with ⟨-, hmem₁⟩ | rfl
    · rcases hi.mem.mp hmem₁ with hmem₀ | rfl
      · exact h p hmem₀
      · exact absurd rfl hnb
    · exact (h _ hold.mem).same ⟨rfl, rfl, rfl⟩
  · refine ⟨_, hv', fun q hq hnode => ?_⟩
    have hle := hoff q hq (hnode.trans (hindex.trans hnew.index))
    rw [hreq, blocksGiven_of_found hold] at hle
    exact hle

/-- Every request whose new inode gets an index that is not in use leaves the
    block lists without holes. -/
theorem Change.noHoles {s s' : State} {e : Event} (hw : WellLinked s)
    (hs : Sound s.inodeTable s.blocks) (hfit : s.inodeTable.All SizeFits)
    (hdist : (indices s.inodeTable).Nodup) (h : NoHoles s.inodeTable s.descriptorTable)
    (hguard : IndexUnused s e) (hchange : Change s e s') :
    NoHoles s'.inodeTable s'.descriptorTable := by
  cases hchange with
  | refused | renamed => exact h
  | created hreq _ hfree hi =>
      have hadds : AddsInode s e.request := by
        rw [hreq]
        exact hfree
      obtain ⟨-, hoff⟩ := hguard hadds
      refine h.pushed hi ⟨0, packed_empty rfl rfl, fun q hq hnode => ?_⟩
      have hle := hoff q hq hnode
      rw [hreq] at hle
      exact hle
  | touched _ _ hi hsame => exact h.touched hi hsame
  | linked _ _ _ _ hi => exact h.touched hi ⟨rfl, rfl, rfl⟩
  | symlinked hreq hadds _ hi hn hp hip hc hic hcopy =>
      exact NoHoles.linked hw hs hfit h hguard hreq hadds hi hn hp hip hc hic hcopy
  | opened _ _ _ _ _ _ hi hd =>
      -- a new descriptor stands at the start
      have htouched := h.touched hi ⟨rfl, rfl, rfl⟩
      refine fun p hp => (htouched p hp).descs fun q hq => ?_
      rcases hd.mem.mp hq with hold | rfl
      · exact Or.inl hold
      · exact Or.inr rfl
  | closed _ _ _ hd => exact fun p hp => (h p hp).descs fun q hq => Or.inl (hd.mem.mp hq).2
  | @wrote _ _ _ _ _ _ _ _ _ v _ _ _ _ _ _ _ hdata _ _ hv hwr _ hi hd =>
      have hin : BlocksInside s.blocks (Inode.written v (e.env.clock 0)) :=
        (hs.blocksInside hv.mem).congr rfl
      have hbuf := (slice_all hdata).ge
      obtain ⟨_, _, hwrote, -⟩ := wrote_of_writeInode hbuf hwr hin
      refine h.moved hdist hv.mem (fun p hp => hi.mem.mp hp) hwrote.index hd hv.index.symm ?_
      intro n hn ho
      have hsame : Packed (Inode.written v (e.env.clock 0)) n := hn.same ⟨rfl, rfl, rfl⟩
      exact writeInode_packed hin hbuf hwr hsame ho
  | @read _ _ _ _ _ _ _ _ v _ _ _ _ _ _ _ hv hrd _ _ hi hd =>
      have hin : BlocksInside s.blocks { v with stat.stAtim := e.env.clock 0 } :=
        (hs.blocksInside hv.mem).congr rfl
      refine h.moved hdist hv.mem (fun p hp => hi.mem.mp hp) rfl hd hv.index.symm ?_
      intro n hn ho
      have hsame : Packed { v with stat.stAtim := e.env.clock 0 } n := hn.same ⟨rfl, rfl, rfl⟩
      exact ⟨n, Nat.le_refl n, hsame, readInode_packed hin hrd hsame ho⟩
  | @sought args _ _ _ _ _ _ a v _ _ _ _ hv hsize hd =>
      have hnodes : ∀ p ∈ s.inodeTable.live, (p.1 ≠ a ∧ p ∈ s.inodeTable.live) ∨ p = (a, v) := by
        rintro ⟨c, w⟩ hp
        by_cases hca : c = a
        · subst hca
          rw [Heap.live_unique hp hv.mem]
          exact Or.inr rfl
        · exact Or.inl ⟨hca, hp⟩
      refine h.moved hdist hv.mem hnodes rfl hd hv.index.symm ?_
      intro n hn _
      exact ⟨n, Nat.le_refl n, hn, Int.ofNat_le.mp (hsize.trans hn.size)⟩
  | unlinkedName _ _ _ _ _ hi => exact h.touched hi ⟨rfl, rfl, rfl⟩
  | unlinkedFile _ _ _ _ _ hi _ hi' =>
      have htouched := h.touched hi ⟨rfl, rfl, rfl⟩
      exact fun p hp => htouched p (hi'.mem.mp hp).2

/-! ## Runs -/

theorem noHoles_of_run {es : List Event} {s : State}
    (hr : Run (guarded IndexUnused Step) State.init es s) :
    (indices s.inodeTable).Nodup ∧ NoHoles s.inodeTable s.descriptorTable := by
  induction hr with
  | start => exact ⟨List.nodup_nil, fun p hp => nomatch hp⟩
  | next hr hs ih =>
      obtain ⟨hdist, h⟩ := ih
      obtain ⟨hguard, hstep⟩ := hs
      have hw := wellLinked_of_run hr.unguard
      have hsound := sound_of_run hr.unguard
      have hchange := step_change hw hstep
      refine ⟨(hchange.reindexes hw hsound).nodup hdist ?_,
        hchange.noHoles hw hsound (sizesFit_of_run hr.unguard) hdist h hguard⟩
      -- the index that is issued is not in use
      intro hadds hmem
      rw [← nextIndex_eq] at hmem
      obtain ⟨p, hp, he⟩ := List.mem_map.mp hmem
      exact (hguard hadds).1 p hp he

/-- Block lists without holes, and what the code relies on them for. -/
structure BlocksInOrder (s : State) : Prop where
  /-- The entries in use are the first ones, and they reach to the end of the
      file and to every descriptor with the index. -/
  noHoles : NoHoles s.inodeTable s.descriptorTable
  /-- A write takes a fresh block to start in only at the beginning of one. -/
  aligned : ∀ fd b d a v, Reaches s fd b d a v → Missing v d.offset →
    d.offset % dataBlockAllocSize = 0
  /-- The loop of `unlink_inode` frees all blocks of an inode. -/
  frees : ∀ p ∈ s.inodeTable.live, ∀ tbl,
    freeBlocks s.blocks.dataBlockTable p.2.dataBlocks.toList = .ok tbl →
    ∀ i k : Nat, p.2.dataBlocks[i]? = some (k + 1) → tbl[k]? = some ⟨false, 0⟩

/-- In every run whose new inodes get indices that are not in use, the blocks
    are in order in every state. -/
theorem blocks_in_order {es : List Event} {s : State}
    (hr : Run (guarded IndexUnused Step) State.init es s) : BlocksInOrder s := by
  have hw := wellLinked_of_run hr.unguard
  have hs := sound_of_run hr.unguard
  obtain ⟨-, h⟩ := noHoles_of_run hr
  constructor
  case noHoles => exact h
  case aligned =>
    intro fd b d a v hreach hmiss
    obtain ⟨-, ⟨l, r, hf⟩, -⟩ := hreach.found hw
    obtain ⟨n, hn, hoff⟩ := h _ hf.mem
    exact hn.aligned (hoff _ (Table.get_ok.mp hreach.opened) hf.index.symm) hmiss
  case frees =>
    intro p hp tbl hfree i k hk
    obtain ⟨n, hn, -⟩ := h p hp
    have hlt : k < numOfDataBlocks := (hs.blocksInside hp i k hk).1
    rw [freeBlocks_ok _ hfree k hlt, if_pos (hn.freed hk)]

/-- Two blocks are written to a file, and while it is open, a file is added, and
    a copy that is removed again; another new file is written too. -/
def growingRun : List Request :=
  [.create ⟨1, 1, 0o600, nameX⟩, .open ⟨1, 1, nameX, 1⟩,
    .write ⟨1, 1, 0, 4097, List.replicate 4097 65⟩, .create ⟨1, 1, 0o600, nameA⟩,
    .symlink ⟨1, 1, 0o600, nameX, nameB⟩, .open ⟨1, 1, nameA, 1⟩, .write ⟨1, 1, 1, 3, [66, 67, 68]⟩,
    .unlink ⟨1, 1, nameB⟩, .create ⟨1, 1, 0o600, nameB⟩]

theorem blocks_in_order_growing : BlocksInOrder (replay growingRun) := by
  have hunused : returns growingRun = true ∧ ∀ k < growingRun.length,
      (∀ p ∈ (replay (growingRun.take k)).inodeTable.live,
        p.2.index ≠ nextIndex (replay (growingRun.take k)).inodeTable) ∧
      ∀ q ∈ (replay (growingRun.take k)).descriptorTable.live,
        q.2.nodeIndex ≠ nextIndex (replay (growingRun.take k)).inodeTable := by decide +kernel
  obtain ⟨hret, hunused⟩ := hunused
  have hguard : ∀ k (hk : k < growingRun.length), IndexUnused (replay (growingRun.take k))
      ⟨stillEnv, growingRun[k], answer (growingRun.take k) growingRun[k]⟩ := fun k hk _ =>
    ⟨(hunused k hk).1, fun q hq hnext => absurd hnext ((hunused k hk).2 q hq)⟩
  obtain ⟨es, hr⟩ := guarded_replay growingRun hret hguard
  exact blocks_in_order hr

/-- A descriptor outlives its file, another file gets the index, and a byte is
    written through the descriptor: the file has a second block and no first. -/
theorem block_list_with_hole : ¬ ∀ (es : List Event) (s : State), ServiceRun es s →
    BlocksInOrder s := by
  intro hclaim
  have hrun : returns holeRun = true ∧ ∃ p ∈ (replay holeRun).inodeTable.live,
      p.2.dataBlocks[0]? = some 0 ∧ p.2.dataBlocks[1]? = some 1 := by decide +kernel
  obtain ⟨hreturns, p, hp, hfirst, hsecond⟩ := hrun
  obtain ⟨es, hr⟩ := run_replay hreturns
  obtain ⟨n, hn, -⟩ := (hclaim es _ hr).noHoles p hp
  have hlt : 1 < n := (hn.used 1 1 hsecond).mp (by decide)
  exact (hn.used 0 0 hfirst).mpr (by omega) rfl

end LibfsSpecs
