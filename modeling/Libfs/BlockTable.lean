import Libfs.Disk
import Mathlib.Data.Set.Card

/-! # No block is leaked and no block is shared

    `Sound` already says that no slot is named twice.  What can go wrong is
    the other direction: a slot that stays allocated although no inode names
    it.  `write_inode` loses one whenever it allocates a position that already
    has a block, which happens to every position behind the one it starts in. -/

namespace LibfsSpecs

open LibfsHeap LibfsStdio LibfsCommon LibfsInode LibfsOperations LibfsRun

/-- The positions of live inodes that carry a block. -/
def positions (s : State) : Set (Nat × Nat) := {x | ∃ b, Refs s.inodeTable x.1 x.2 b}

/-- The allocated slots. -/
def allocatedSlots (s : State) : Set Nat := {b | Taken s.blocks b}

/-- The slot a position names: `data_blocks[i] - 1`. -/
def slotOf (s : State) (x : Nat × Nat) : Nat :=
  match s.inodeTable.heap.valAt x.1 with
  | some v => v.dataBlocks[x.2]?.getD 0 - 1
  | none => 0

/-- The entry of a slot carries the index of the inode that names it. -/
def Owned (t : Table Inode) (bs : BlockStore) : Prop :=
  ∀ (a : Nat) (v : Inode) (i b : Nat), (a, v) ∈ t.live → v.dataBlocks[i]? = some (b + 1) →
    bs.dataBlockTable[b]? = some ⟨true, v.index⟩

/-- Positions and allocated slots correspond one to one, and slots know their
    inode. -/
structure NoLeak (s : State) : Prop where
  bijection : Set.BijOn (slotOf s) (positions s) (allocatedSlots s)
  owned : Owned s.inodeTable s.blocks

theorem slotOf_eq {s : State} {a i b : Nat} (h : Refs s.inodeTable a i b) :
    slotOf s (a, i) = b := by
  obtain ⟨v, hv, hb⟩ := h
  unfold slotOf
  rw [Heap.mem_live.mp hv]
  show v.dataBlocks[i]?.getD 0 - 1 = b
  rw [hb]
  rfl

/-- Every allocated slot is named by some inode. -/
def Covered (t : Table Inode) (bs : BlockStore) : Prop := ∀ b, Taken bs b → ∃ a i, Refs t a i b

/-- Where the tables are in step, one to one means that nothing is lost. -/
theorem noLeak_of_covered {s : State} (hs : Sound s.inodeTable s.blocks)
    (hc : Covered s.inodeTable s.blocks) (ho : Owned s.inodeTable s.blocks) : NoLeak s := by
  refine ⟨⟨?_, ?_, ?_⟩, ho⟩
  · rintro ⟨a, i⟩ ⟨b, hb⟩
    show Taken s.blocks (slotOf s (a, i))
    rw [slotOf_eq hb]
    exact hs.taken a i b hb
  · rintro ⟨a, i⟩ ⟨b, hb⟩ ⟨a', i'⟩ ⟨b', hb'⟩ he
    rw [slotOf_eq hb, slotOf_eq hb'] at he
    subst he
    obtain ⟨rfl, rfl⟩ := hs.once a i a' i' b hb hb'
    rfl
  · intro b hb
    obtain ⟨a, i, hr⟩ := hc b hb
    exact ⟨(a, i), ⟨b, hr⟩, slotOf_eq hr⟩

/-- As many slots are allocated as inodes name. -/
theorem NoLeak.count {s : State} (h : NoLeak s) :
    (allocatedSlots s).ncard = (positions s).ncard := by
  rw [← h.bijection.image_eq]
  exact h.bijection.injOn.ncard_image

/-! ## One change after the other -/

/-- More references to the same blocks. -/
theorem Covered.mono {t t' : Table Inode} {bs : BlockStore} (hc : Covered t bs)
    (hr : ∀ a i b, Refs t a i b → Refs t' a i b) : Covered t' bs := by
  intro b hb
  obtain ⟨a, i, h⟩ := hc b hb
  exact ⟨a, i, hr a i b h⟩

theorem Covered.touched {t t' : Table Inode} {bs : BlockStore} (hc : Covered t bs)
    {l r : List (Nat × Inode)} {a : Nat} {v v' : Inode} (hup : t.Updated t' l r a v v')
    (hsame : SameFile v v') : Covered t' bs :=
  hc.mono fun _ _ _ => (refs_touched hup hsame.blocks).mpr

/-- A write that only fills empty positions loses no slot. -/
theorem Covered.wrote {t t' : Table Inode} {bs bs' : BlockStore} (hc : Covered t bs)
    {l r : List (Nat × Inode)} {a : Nat} {v v₀ v' : Inode} {start p : Nat} {ks : List Nat}
    (hup : t.Updated t' l r a v v') (hw : Wrote bs bs' v₀ v' start p ks)
    (hsame : v₀.dataBlocks = v.dataBlocks)
    (hempty : ∀ i, p ≤ i → i < p + ks.length → v.dataBlocks[i]? = some 0) : Covered t' bs' := by
  intro b hb
  rcases hw.taken_iff.mp hb with hnew | hold
  · obtain ⟨j, hj⟩ := List.mem_iff_getElem?.mp hnew
    have hjlt : j < ks.length := (List.getElem?_eq_some_iff.mp hj).1
    have hfit : p + ks.length ≤ fileMaxBlocks := by
      rcases hw.fits with hf | rfl
      · exact hf
      · exact absurd hjlt (Nat.not_lt_zero j)
    refine ⟨a, p + j, (refs_replaced hup.replaced).mpr (Or.inr ⟨rfl, ?_⟩)⟩
    rw [hw.blocks, putBlocks_getElem? _ _ _ _ (by omega), if_pos (by omega),
      Nat.add_sub_cancel_left, hj]
    rfl
  · obtain ⟨c, i, hr⟩ := hc b hold
    refine ⟨c, i, (refs_replaced hup.replaced).mpr ?_⟩
    by_cases hca : c = a
    · subst hca
      obtain ⟨w, hmem, hi⟩ := hr
      rw [Heap.live_unique hmem hup.mem_old] at hi
      have hlt : i < fileMaxBlocks := by
        by_contra hge
        rw [Vector.getElem?_eq_none (by omega)] at hi
        exact nomatch hi
      refine Or.inr ⟨rfl, ?_⟩
      rw [hw.blocks, putBlocks_getElem? _ _ _ _ hlt, if_neg, hsame]
      · exact hi
      · -- the old block would stand where the write found a zero
        rintro ⟨h1, h2⟩
        rw [hempty i h1 h2] at hi
        exact nomatch hi
    · exact Or.inl ⟨hca, hr⟩

theorem Owned.wrote {t t' : Table Inode} {bs bs' : BlockStore} (hs : Sound t bs)
    (ho : Owned t bs) {l r : List (Nat × Inode)} {a : Nat} {v v₀ v' : Inode} {start p : Nat}
    {ks : List Nat} (hup : t.Updated t' l r a v v') (hw : Wrote bs bs' v₀ v' start p ks)
    (hsame : SameFile v v₀) : Owned t' bs' := by
  -- an entry that was taken is not among those the write changed
  have hkeep : ∀ b, Taken bs b → bs'.dataBlockTable[b]? = bs.dataBlockTable[b]? := by
    intro b hb
    rw [hw.table, occupySlots_getElem? _ _ _ _ (taken_lt hb), if_neg]
    intro hmem
    exact hw.fresh hmem hb
  intro c w i b hmem hi
  rcases hup.mem.mp hmem with ⟨-, hmem⟩ | he
  · rw [hkeep b (hs.taken c i b ⟨w, hmem, hi⟩)]
    exact ho c w i b hmem hi
  · cases he
    rcases hw.block_cases hi with ⟨-, hk⟩ | ⟨-, hold⟩
    · have hin : b ∈ ks := List.mem_of_getElem? hk
      have hlt : b < numOfDataBlocks := taken_lt (hw.taken_iff.mpr (Or.inl hin))
      rw [hw.table, occupySlots_getElem? _ _ _ _ hlt, if_pos hin, hw.index]
    · rw [hsame.blocks] at hold
      rw [hkeep b (hs.taken _ i b ⟨v, hup.mem_old, hold⟩), hw.index, hsame.index]
      exact ho _ v i b hup.mem_old hold

theorem Owned.touched {t t' : Table Inode} {bs : BlockStore} (ho : Owned t bs)
    {l r : List (Nat × Inode)} {a : Nat} {v v' : Inode} (hup : t.Updated t' l r a v v')
    (hsame : SameFile v v') : Owned t' bs := by
  intro c w i b hmem hi
  rcases hup.mem.mp hmem with ⟨-, hmem⟩ | he
  · exact ho c w i b hmem hi
  · cases he
    rw [hsame.blocks] at hi
    rw [hsame.index]
    exact ho _ v i b hup.mem_old hi

theorem Owned.pushed {t t' : Table Inode} {bs : BlockStore} (ho : Owned t bs) {a : Nat}
    {v : Inode} (hp : t.Pushed t' a v) (hv : v.dataBlocks = Vector.replicate fileMaxBlocks 0) :
    Owned t' bs := by
  intro c w i b hmem hi
  rcases hp.mem.mp hmem with hmem | he
  · exact ho c w i b hmem hi
  · cases he
    rw [hv, Vector.getElem?_replicate] at hi
    split at hi
    · exact nomatch hi
    · exact nomatch hi

/-- Freeing an inode whose blocks are all found loses no slot. -/
theorem Covered.freed {t t' : Table Inode} {bs : BlockStore} (hc : Covered t bs)
    {l r : List (Nat × Inode)} {a : Nat} {v : Inode} {tbl : Vector DataBlock numOfDataBlocks}
    (hd : t.Detached t' l r a v)
    (hf : freeBlocks bs.dataBlockTable v.dataBlocks.toList = .ok tbl)
    (hall : ∀ i b : Nat, v.dataBlocks[i]? = some (b + 1) →
      b + 1 ∈ freedBlocks v.dataBlocks.toList) :
    Covered t' { bs with dataBlockTable := tbl } := by
  intro b hb
  obtain ⟨ht, hnot⟩ := (taken_freed hf).mp hb
  obtain ⟨c, i, hr⟩ := hc b ht
  refine ⟨c, i, (refs_detached hd).mpr ⟨?_, hr⟩⟩
  rintro rfl
  obtain ⟨w, hmem, hi⟩ := hr
  have hv : (c, v) ∈ t.live := by
    rw [hd.before]
    exact List.mem_append_right _ (List.mem_cons_self ..)
  rw [Heap.live_unique hmem hv] at hi
  exact hnot (hall i b hi)

theorem Owned.freed {t t' : Table Inode} {bs : BlockStore} (hs : Sound t bs) (ho : Owned t bs)
    {l r : List (Nat × Inode)} {a : Nat} {v : Inode} {tbl : Vector DataBlock numOfDataBlocks}
    (hd : t.Detached t' l r a v)
    (hf : freeBlocks bs.dataBlockTable v.dataBlocks.toList = .ok tbl) :
    Owned t' { bs with dataBlockTable := tbl } := by
  intro c w i b hmem hi
  obtain ⟨-, hmem'⟩ := hd.mem.mp hmem
  have ht := (hs.freed hd hf).taken c i b ⟨w, hmem, hi⟩
  obtain ⟨-, hnot⟩ := (taken_freed hf).mp ht
  show tbl[b]? = _
  rw [freeBlocks_ok _ hf b (taken_lt ht), if_neg hnot]
  exact ho c w i b hmem' hi

/-! ## Runs that lose no block -/

/-- The positions a write fills with new slots are empty. -/
def FillsEmpty (bs : BlockStore) (v : Inode) (offset size : Nat) : Prop :=
  ∀ i, firstNew v offset size ≤ i →
    i < firstNew v offset size
      + min (newCount v offset size) (freeSlots bs.dataBlockTable).length →
    v.dataBlocks[i]? = some 0

/-- The request loses no block: a write that is let through and gets past its
    first block finds no block at the positions it fills, a soft link gets an
    index no live inode carries, and the blocks of an inode that is removed
    stand at its first positions. -/
def KeepsBlocks (s : State) (e : Event) : Prop :=
  match e.request with
  | .write args => ∀ ld rd b d l r a v, FoundDesc s.descriptorTable args.fd ld rd b d →
      d.mode = .writeOnly → FoundInode s.inodeTable d.nodeIndex l r a v →
      u32 (d.offset + args.size) ≤ dataBlockAllocSize * fileMaxBlocks →
      FillsEmpty s.blocks v d.offset args.size
  | .symlink args => AddsInode s (.symlink args) →
      ∀ p ∈ s.inodeTable.live, p.2.index ≠ nextIndex s.inodeTable
  | .unlink args => ∀ x l r a v, lookup s.filenameTable args.name = some x →
      FoundInode s.inodeTable x l r a v →
      u32 (v.refCount + 4294967295) = 0 → ∀ i b : Nat, v.dataBlocks[i]? = some (b + 1) →
        b + 1 ∈ freedBlocks v.dataBlocks.toList
  | _ => True

/-- The slots a write takes are as many as it needs, or all there are. -/
theorem Wrote.length_le {bs bs' : BlockStore} {v v' : Inode} {start p : Nat} {ks : List Nat}
    (h : Wrote bs bs' v v' start p ks) : ks.length ≤ (freeSlots bs.dataBlockTable).length := by
  have hlen := congrArg List.length h.lowest
  rw [List.length_take] at hlen
  omega

/-- Nothing is lost by a change that keeps the blocks. -/
theorem Change.covered {s s' : State} {e : Event} (hw : WellLinked s)
    (hs : Sound s.inodeTable s.blocks) (hc : Covered s.inodeTable s.blocks)
    (ho : Owned s.inodeTable s.blocks) (hk : KeepsBlocks s e) (h : Change s e s') :
    Covered s'.inodeTable s'.blocks ∧ Owned s'.inodeTable s'.blocks := by
  cases h with
  | refused => exact ⟨hc, ho⟩
  | created _ _ _ hi =>
      exact ⟨hc.mono fun _ _ _ => (refs_pushed hi rfl).mpr, ho.pushed hi rfl⟩
  | touched _ _ hi hsame => exact ⟨hc.touched hi hsame, ho.touched hi hsame⟩
  | renamed => exact ⟨hc, ho⟩
  | linked _ _ _ _ hi => exact ⟨hc.touched hi ⟨rfl, rfl, rfl⟩, ho.touched hi ⟨rfl, rfl, rfl⟩⟩
  | symlinked hreq hadds _ hi hn hp hip hcf hic hcopy =>
      unfold KeepsBlocks at hk
      rw [hreq] at hk hadds
      obtain ⟨-, hnew, -⟩ :=
        child_is_new hi hip ⟨rfl, rfl, rfl⟩ rfl (hk hadds) hcf
      have hs3 := ((hs.pushed hi rfl).touched hip ⟨rfl, rfl, rfl⟩).touched hic ⟨rfl, rfl, rfl⟩
      have hc1 := hc.mono fun _ _ _ => (refs_pushed hi rfl).mpr
      have hc3 := (hc1.touched hip ⟨rfl, rfl, rfl⟩).touched hic ⟨rfl, rfl, rfl⟩
      have ho3 := ((ho.pushed hi rfl).touched hip ⟨rfl, rfl, rfl⟩).touched hic ⟨rfl, rfl, rfl⟩
      have hmid : WellLinked { s with inodeTable := _, filenameTable := _ } :=
        ⟨hic.wf, hn.wf, hw.descs, hw.headed⟩
      rcases copyContents_ok hmid hic.after hcopy with
        ⟨_, _, _, _, _, _, _, hbuf, hwr, -, hup, rfl⟩ | ⟨-, rfl⟩
      · obtain ⟨p, ks, hwrote, -⟩ := wrote_of_writeInode hbuf hwr (hs3.blocksInside hup.mem_old)
        refine ⟨hc3.wrote hup hwrote rfl ?_, ho3.wrote hs3 hup hwrote ⟨rfl, rfl, rfl⟩⟩
        -- the child is new and has no block at all
        intro i hi1 hi2
        have hlt : i < fileMaxBlocks := by
          rcases hwrote.fits with hf | rfl
          · omega
          · exact absurd hi2 (by simp; omega)
        show (_ : Inode).dataBlocks[i]? = _
        rw [show _ = _ from hnew.blocks]
        show (Vector.replicate fileMaxBlocks 0)[i]? = some 0
        rw [Vector.getElem?_replicate, if_pos hlt]
      · exact ⟨hc3, ho3⟩
  | opened _ _ _ _ _ _ hi => exact ⟨hc.touched hi ⟨rfl, rfl, rfl⟩, ho.touched hi ⟨rfl, rfl, rfl⟩⟩
  | closed => exact ⟨hc, ho⟩
  | @wrote args data ld rd b d l r a v v' st offset t td bs hreq hdata hfd hmode hv hwr _ hi =>
      unfold KeepsBlocks at hk
      rw [hreq] at hk
      by_cases hmax : dataBlockAllocSize * fileMaxBlocks < u32 (d.offset + args.size)
      · -- too long for a file: only the time of the write changes
        rw [writeInode_too_long hmax] at hwr
        cases hwr
        exact ⟨hc.touched hi ⟨rfl, rfl, rfl⟩, ho.touched hi ⟨rfl, rfl, rfl⟩⟩
      have hfill := hk _ _ _ _ _ _ _ _ hfd hmode hv (Nat.le_of_not_lt hmax)
      have hin := hs.blocksInside hv.mem
      obtain ⟨p, ks, hwrote, hnew⟩ :=
        wrote_of_writeInode (slice_all hdata).ge hwr (hin.congr rfl)
      refine ⟨hc.wrote hi hwrote rfl ?_, ho.wrote hs hi hwrote ⟨rfl, rfl, rfl⟩⟩
      intro i hi1 hi2
      have hne : ks ≠ [] := by
        rintro rfl
        exact absurd hi2 (by simp; omega)
      obtain ⟨rfl, hle⟩ := hnew hne
      have hle' := hwrote.length_le
      exact hfill i hi1
        (Nat.lt_of_lt_of_le hi2 (Nat.add_le_add_left (Nat.le_min.mpr ⟨hle, hle'⟩) _))
  | read _ _ _ _ _ _ hi => exact ⟨hc.touched hi ⟨rfl, rfl, rfl⟩, ho.touched hi ⟨rfl, rfl, rfl⟩⟩
  | sought => exact ⟨hc, ho⟩
  | unlinkedName _ _ _ _ _ hi => exact ⟨hc.touched hi ⟨rfl, rfl, rfl⟩, ho.touched hi ⟨rfl, rfl, rfl⟩⟩
  | unlinkedFile hreq _ hv hx _ hi hcount hi' hblk =>
      unfold KeepsBlocks at hk
      rw [hreq] at hk
      have hknown := lookup_of_found hx
      rw [nodeOf_found hx] at hv
      have hs' := hs.touched hi ⟨rfl, rfl, rfl⟩
      exact ⟨(hc.touched hi ⟨rfl, rfl, rfl⟩).freed hi' hblk
          fun i b hb => hk _ _ _ _ _ hknown hv hcount i b hb,
        (ho.touched hi ⟨rfl, rfl, rfl⟩).freed hs' hi' hblk⟩

/-- A run whose requests keep the blocks ends without a leak, and as many
    slots are allocated as inodes name. -/
theorem no_leak_of_run {es : List Event} {s : State}
    (hr : Run (guarded KeepsBlocks Step) State.init es s) :
    NoLeak s ∧ (allocatedSlots s).ncard = (positions s).ncard := by
  have hinv : Covered s.inodeTable s.blocks ∧ Owned s.inodeTable s.blocks := by
    induction hr with
    | start =>
        constructor
        · intro b hb
          exact absurd (sound_init.inside b hb) (Nat.not_lt_zero b)
        · intro a v i b hv
          exact nomatch hv
    | next hr hs ih =>
        have hw := wellLinked_of_run hr.unguard
        exact (step_change hw hs.2).covered hw (sound_of_run hr.unguard) ih.1 ih.2 hs.1
  have hleak := noLeak_of_covered (sound_of_run hr.unguard) hinv.1 hinv.2
  exact ⟨hleak, hleak.count⟩

/-- A write keeps the blocks when every inode its number can lead to is empty
    from the first new position on. -/
theorem keepsBlocks_write {s : State} {args : WriteArgs} {env : Env} {resp : Response}
    (h : ∀ p ∈ s.descriptorTable.live, p.2.desc = args.fd → p.2.mode = .writeOnly →
      ∀ q ∈ s.inodeTable.live, q.2.index = p.2.nodeIndex → ∀ i < fileMaxBlocks,
        firstNew q.2 p.2.offset args.size ≤ i → q.2.dataBlocks[i]? = some 0) :
    KeepsBlocks s ⟨env, .write args, resp⟩ := by
  intro ld rd b d l r a v hd hmode hv hmax i h1 h2
  have hfit := newCount_fits (v := v) hmax
  exact h _ hd.mem (of_decide_eq_true hd.passes) hmode _ hv.mem (of_decide_eq_true hv.passes) i
    (by omega) h1

/-- An UNLINK keeps the blocks when every inode the name can lead to has its
    blocks in front. -/
theorem keepsBlocks_unlink {s : State} {args : UnlinkArgs} {env : Env} {resp : Response}
    (h : ∀ q ∈ s.inodeTable.live, lookup s.filenameTable args.name = some q.2.index →
      ∀ k ∈ q.2.dataBlocks.toList, k ≠ 0 → k ∈ freedBlocks q.2.dataBlocks.toList) :
    KeepsBlocks s ⟨env, .unlink args, resp⟩ := by
  intro x l r a v hx hv hcount i b hb
  refine h _ hv.mem (hx.trans ?_) (b + 1) ?_ (Nat.succ_ne_zero b)
  · rw [of_decide_eq_true hv.passes]
  · rw [← Vector.getElem?_toList] at hb
    exact List.mem_of_getElem? hb

/-- Two files, one written in two parts and then unlinked.  A write through a
    READ_ONLY descriptor and an UNLINK of a missing name are refused in
    between. -/
def twoPartRun : List Request :=
  [.create ⟨1, 1, 0o600, nameX⟩, .open ⟨1, 1, nameX, 1⟩, .open ⟨1, 1, nameX, 0⟩,
    .write ⟨1, 1, 0, 4000, List.replicate 4000 65⟩, .write ⟨1, 1, 1, 1, [66]⟩,
    .unlink ⟨1, 1, nameA⟩, .write ⟨1, 1, 0, 200, List.replicate 200 67⟩,
    .create ⟨1, 1, 0o600, nameA⟩, .open ⟨1, 1, nameA, 1⟩, .write ⟨1, 1, 2, 1, [68]⟩,
    .unlink ⟨1, 1, nameX⟩]

theorem no_leak_twoPart : NoLeak (replay twoPartRun) ∧
    (allocatedSlots (replay twoPartRun)).ncard = (positions (replay twoPartRun)).ncard := by
  have hguard : ∀ k (hk : k < twoPartRun.length), KeepsBlocks (replay (twoPartRun.take k))
      ⟨stillEnv, twoPartRun[k], answer (twoPartRun.take k) twoPartRun[k]⟩ := by
    intro k hk
    match k, hk with
    | 0, _ | 1, _ | 2, _ | 7, _ | 8, _ => trivial
    | 3, _ | 4, _ | 6, _ | 9, _ => exact keepsBlocks_write (by decide +kernel)
    | 5, _ | 10, _ => exact keepsBlocks_unlink (by decide +kernel)
  obtain ⟨es, hr⟩ := guarded_replay twoPartRun (by decide +kernel) hguard
  exact no_leak_of_run hr

/-- A file of two blocks whose second byte but one is written again. -/
def overwriteRun : List Request :=
  [.create ⟨1, 1, 0o600, nameX⟩, .open ⟨1, 1, nameX, 1⟩,
    .write ⟨1, 1, 0, 4097, List.replicate 4097 65⟩, .seek ⟨1, 1, 0, 4095⟩,
    .write ⟨1, 1, 0, 2, [66, 66]⟩]

/-- The second write allocates the second block again: slot 1 stays allocated
    and no inode names it. -/
theorem overwrite_leaks : ¬ ∀ es s, ServiceRun es s → NoLeak s := by
  intro h
  have hrun : returns overwriteRun = true ∧
      (replay overwriteRun).blocks.dataBlockTable[1]? = some ⟨true, 0⟩ ∧
      ∀ p ∈ (replay overwriteRun).inodeTable.live, 2 ∉ p.2.dataBlocks.toList := by
    decide +kernel
  obtain ⟨hret, htaken, hlost⟩ := hrun
  obtain ⟨es, hr⟩ := run_replay hret
  have hleak := h es _ hr
  obtain ⟨⟨a, i⟩, ⟨b, hr⟩, he⟩ := hleak.bijection.surjOn ⟨0, htaken⟩
  rw [slotOf_eq hr] at he
  subst he
  obtain ⟨v, hv, hi⟩ := hr
  refine hlost (a, v) hv ?_
  rw [← Vector.getElem?_toList] at hi
  exact List.mem_of_getElem? hi

end LibfsSpecs
