import Libfs.FailedWrites

/-! # Soft links that fail

    `create_soft_link` hangs the new inode and the new name on their lists
    before it copies the bytes of the parent.  A copy that fails takes neither
    back, so a failure leaves nothing behind only where no copy was begun. -/

namespace LibfsSpecs

open LibfsHeap LibfsStdio LibfsCommon LibfsInode LibfsOperations LibfsRun

/-! ## The size of a file -/

/-- The size `st_size` of an inode is that of a file. -/
def SizeFits (v : Inode) : Prop := 0 ≤ v.stat.stSize ∧ v.stat.stSize ≤ (fileEnd : Int)

/-- A write sets the size it checked, or leaves it. -/
theorem writeInode_size {bs bs' : BlockStore} {v v' : Inode} {buf : Bytes}
    {offset size offset' : Nat} {st : Status} (hin : BlocksInside bs v) (hbuf : size ≤ buf.length)
    (h : writeInode bs v buf offset size = .ok (st, v', offset', bs')) (hv : SizeFits v) :
    SizeFits v' := by
  by_cases hmax : u32 (offset + size) ≤ fileEnd
  · rw [writeInode_after hin hbuf hmax] at h
    by_cases henough : newCount v offset size ≤ (freeSlots bs.dataBlockTable).length
    · rw [if_pos henough] at h
      cases h
      exact ⟨Int.natCast_nonneg _, Int.ofNat_le.mpr hmax⟩
    · rw [if_neg henough] at h
      cases h
      exact hv
  · rw [writeInode_too_long (Nat.not_le.mp hmax)] at h
    cases h
    exact hv

theorem SizeFits.same {v v' : Inode} (hsame : SameFile v v') (hv : SizeFits v) : SizeFits v' := by
  unfold SizeFits
  rw [hsame.size]
  exact hv

/-- In every state of every run the sizes are those of files. -/
theorem sizesFit_of_run {es : List Event} {s : State} (hr : ServiceRun es s) :
    s.inodeTable.All SizeFits := by
  have hinv := invariant_of_change
    (fun s => Sound s.inodeTable s.blocks ∧ s.inodeTable.All SizeFits)
    ⟨sound_init, fun p hp => nomatch hp⟩ ?_ hr
  · exact hinv.2.2
  · rintro s e s' hw ⟨hs, hall⟩ hc
    refine ⟨hc.sound hw hs, hc.inodes_all hw hs ?_ ?_ ?_ hall⟩
    · intro v _ hzero
      exact ⟨hzero.ge, hzero.trans_le (Int.natCast_nonneg fileEnd)⟩
    · intro v v' hsame hv
      exact hv.same hsame
    · intro bs bs' v v' buf offset size offset' st hin hbuf h hv
      exact writeInode_size hin hbuf h hv

/-! ## Names in an intact list -/

/-- A search in an intact table comes to an end. -/
theorem find_cases {α : Type} {t : Table α} (hw : t.WF) (hi : t.Intact) (test : α → Bool) :
    (∃ l r a v, t.Found test l r a v ∧ t.find test = .ok (some a)) ∨
      ((∀ p ∈ t.live, test p.2 = false) ∧ t.find test = .ok none) := by
  have hfind := hw.find_eq hi test
  cases hq : (t.live.find? fun p => test p.2).map Prod.fst with
  | none =>
      rw [hq] at hfind
      exact Or.inr ⟨hw.find_none hfind, hfind⟩
  | some a =>
      rw [hq] at hfind
      obtain ⟨l, v, r, hf⟩ := hw.find_some hfind
      exact Or.inl ⟨l, r, a, v, hf, hfind⟩

section Names

variable {t : Table FilenameInode} {name : Filename}

theorem getIndex_total (hw : t.WF) (hi : t.Intact) :
    ∃ st, getInodeIndexForFilename t name 0 = .ok (st, nodeOf t name) ∧
      (st = .success ↔ lookup t name ≠ none) := by
  have h := getIndex_eq hw hi name 0
  cases hl : lookup t name with
  | none =>
      rw [hl] at h
      exact ⟨.failure, by rw [h, nodeOf_missing hl], iff_of_false (by decide) fun hne => hne rfl⟩
  | some k =>
      rw [hl] at h
      exact ⟨.success, by rw [h, nodeOf_of_lookup hl], iff_of_true rfl (Option.some_ne_none k)⟩

theorem checkTaken_total (hw : t.WF) (hi : t.Intact) :
    checkIfFilenameTaken t name = .ok (lookup t name).isSome :=
  checkTaken_lists (hw.lists hi) name

theorem addFilename_total (hw : t.WF) (hi : t.Intact) (hfree : lookup t name = none) (n : Nat) :
    ∃ a t', addFilenameToTable t name n = .ok (.success, t') ∧ t.Pushed t' a ⟨n, name⟩ := by
  obtain ⟨t', hpush, hpushed⟩ := hw.pushBack_eq hi fun _ => ⟨n, name⟩
  refine ⟨_, t', ?_, hpushed⟩
  unfold addFilenameToTable
  rcases find_cases hw hi fun e => decide (e.filename = name) with
    ⟨l, r, a, e, hf, -⟩ | ⟨-, hfind⟩
  · rw [lookup_of_found hf] at hfree
    exact nomatch hfree
  · rw [hfind, ok_bind]
    show (t.pushBack _ >>= _) = _
    rw [hpush]
    rfl

end Names

/-! ## The two searches -/

section Searches

variable {t t₁ : Table Inode} {env : Env} {w : Inode} {n k c : Nat}

/-- From `NULL` no node is found. -/
theorem findAt_null {α : Type} (t : Table α) (test : α → Bool) : t.findAt none test = .ok none := by
  unfold Table.findAt
  cases t.heap.length with
  | zero => rfl
  | succ n => rfl

theorem link_from_null : linkParentAndChild t env none n k = .ok (none, none, t) := by
  unfold linkParentAndChild
  rw [findAt_null, ok_bind]
  show (t.findAt none _ >>= _) = _
  rw [findAt_null]
  rfl

/-- Assignments to a node that a search came to. -/
theorem updateFound_eq (hw : t.WF) {l r : List (Nat × Inode)} {a : Nat} {v : Inode}
    (hf : FoundInode t n l r a v) (f : Inode → Inode) :
    ∃ t', updateFound t (some a) f = .ok t' ∧ t.Updated t' l r a v (f v) := by
  obtain ⟨t', ht', hup⟩ := hw.put_split hf.split (f v)
  refine ⟨t', ?_, hup⟩
  show (t.get a >>= _) = _
  rw [hf.get, ok_bind, ht']

/-- A new inode in an intact list. -/
theorem addInode_total (hw : t.WF) (hi : t.Intact) (type : Nat) (owner ownerGroup refCount : Nat)
    (mode stSize : Int) (x y z : Timespec) :
    ∃ a t', addInode t type owner ownerGroup refCount mode stSize x y z = .ok (nextIndex t, t') ∧
      t.Pushed t' a ⟨nextIndex t, type, ⟨stSize, x, y, z⟩, mode, owner, ownerGroup, refCount,
        Vector.replicate fileMaxBlocks 0⟩ := by
  obtain ⟨⟨n, t'⟩, h⟩ : ∃ r, addInode t type owner ownerGroup refCount mode stSize x y z = .ok r := by
    unfold addInode
    obtain ⟨t', hpush, hpushed⟩ := hw.pushBack_eq hi _
    rw [hpush, ok_bind]
    show ∃ r, (t'.get _ >>= _) = .ok r
    rw [Table.get_ok.mpr (hpushed.mem.mpr (Or.inr rfl))]
    exact ⟨_, rfl⟩
  obtain ⟨rfl, a, hpushed⟩ := addInode_ok hw h
  exact ⟨a, t', h, hpushed⟩

/-- The first inode with an index, the new inode `w` counted as the last. -/
def firstInode (t : Table Inode) (w : Inode) (n : Nat) : Option Inode :=
  (t.live.map Prod.snd ++ [w]).find? fun v => v.index = n

theorem firstInode_of_found (hp : t.Pushed t₁ c w) {l r : List (Nat × Inode)} {a : Nat} {v : Inode}
    (hf : FoundInode t₁ n l r a v) : firstInode t w n = some v := by
  have hnodes : t₁.live.map Prod.snd = t.live.map Prod.snd ++ [w] := by
    rw [hp.after, List.map_append]
    rfl
  unfold firstInode
  rw [← hnodes, List.find?_map]
  have hfirst : t₁.live.find? ((fun v : Inode => decide (v.index = n)) ∘ Prod.snd) = some (a, v) :=
    hf.find?_eq
  rw [hfirst]
  rfl

theorem firstInode_of_none (hp : t.Pushed t₁ c w)
    (hnone : ∀ p ∈ t₁.live, decide (p.2.index = n) = false) : firstInode t w n = none := by
  unfold firstInode
  refine List.find?_eq_none.mpr ?_
  intro v hv
  rw [Bool.not_eq_true]
  rcases List.mem_append.mp hv with hold | hnew
  · obtain ⟨p, hmem, rfl⟩ := List.mem_map.mp hold
    exact hnone p (hp.mem.mpr (Or.inl hmem))
  · rw [List.mem_singleton.mp hnew]
    exact hnone (c, w) (hp.mem.mpr (Or.inr rfl))

/-- The first element that passes a test, after an element was replaced by one
    that passes it as well as the old one. -/
theorem find?_replaced {β : Type} {test : β → Bool} {x y z : β} {l r : List β}
    (hsame : test y = test x) (h : (l ++ y :: r).find? test = some z) :
    (l ++ x :: r).find? test = some z ∨ ((l ++ x :: r).find? test = some x ∧ z = y) := by
  rw [List.find?_append] at h ⊢
  cases hl : l.find? test with
  | some z' =>
      rw [hl] at h
      exact Or.inl h
  | none =>
      rw [hl] at h
      cases hx : test x with
      | true =>
          rw [List.find?_cons_of_pos (hsame.trans hx)] at h
          rw [List.find?_cons_of_pos hx]
          exact Or.inr ⟨rfl, (Option.some.inj h).symm⟩
      | false =>
          rw [List.find?_cons_of_neg (by rw [hsame, hx]; decide)] at h
          rw [List.find?_cons_of_neg (by rw [hx]; decide)]
          exact Or.inl h

/-- The first inode with an index after the access time of one was set. -/
theorem firstInode_touched (hp : t.Pushed t₁ c w) {t₂ : Table Inode} {lp rp lc rc : List (Nat × Inode)}
    {a b : Nat} {vp vp' vc : Inode} (hup : t₁.Updated t₂ lp rp a vp vp') (hsame : SameFile vp vp')
    (hf : FoundInode t₂ k lc rc b vc) : ∃ v, firstInode t w k = some v ∧ SameFile v vc := by
  have hfind : (lp ++ (a, vp') :: rp).find? (fun p => decide (p.2.index = k)) = some (b, vc) := by
    rw [← hup.after]
    exact hf.find?_eq
  have hnodes : t.live ++ [(c, w)] = lp ++ (a, vp) :: rp := by rw [← hp.after, hup.before]
  have hfirst : firstInode t w k
      = ((lp ++ (a, vp) :: rp).find? fun p => decide (p.2.index = k)).map Prod.snd := by
    rw [← hnodes]
    unfold firstInode
    rw [show t.live.map Prod.snd ++ [w] = (t.live ++ [(c, w)]).map Prod.snd by
      rw [List.map_append, List.map_singleton], List.find?_map]
    rfl
  rw [hfirst]
  have htest : (fun p : Nat × Inode => decide (p.2.index = k)) (a, vp')
      = (fun p : Nat × Inode => decide (p.2.index = k)) (a, vp) := by
    show decide (vp'.index = k) = decide (vp.index = k)
    rw [hsame.index]
  rcases find?_replaced htest hfind with hold | ⟨hold, hvc⟩
  · exact ⟨vc, by rw [hold]; rfl, rfl, rfl, rfl⟩
  · cases hvc
    exact ⟨vp, by rw [hold]; rfl, hsame⟩

/-- The searches when the head pointer points to a node: no parent, or parent
    and child. -/
theorem link_total (hw : t.WF) (hi : t.Intact) (hk : ∃ p ∈ t.live, p.2.index = k) :
    ((∀ p ∈ t.live, decide (p.2.index = n) = false) ∧
      ∃ child t', linkParentAndChild t env t.head n k = .ok (none, child, t')) ∨
    ∃ lp rp a vp t₂ lc rc b vc t₃, FoundInode t n lp rp a vp ∧
      t.Updated t₂ lp rp a vp { vp with stat.stAtim := env.clock 1 } ∧
      FoundInode t₂ k lc rc b vc ∧
      t₂.Updated t₃ lc rc b vc { vc with refCount := u32 (vc.refCount + 1) } ∧
      linkParentAndChild t env t.head n k = .ok (some a, some b, t₃) := by
  unfold linkParentAndChild
  rcases find_cases hw hi fun i => decide (i.index = n) with
    ⟨lp, rp, a, vp, hfp, hparent⟩ | ⟨hnone, hparent⟩
  · right
    obtain ⟨t₂, hupdate, hup⟩ := updateFound_eq hw hfp fun i => { i with stat.stAtim := env.clock 1 }
    have hhead : t.head = t₂.head := hup.head.symm
    rcases find_cases hup.wf (hup.intact.mpr hi) fun i => decide (i.index = k) with
      ⟨lc, rc, b, vc, hfc, hchild⟩ | ⟨hmissing, -⟩
    · obtain ⟨t₃, hcount, hupc⟩ :=
        updateFound_eq hup.wf hfc fun i => { i with refCount := u32 (i.refCount + 1) }
      refine ⟨lp, rp, a, vp, t₂, lc, rc, b, vc, t₃, hfp, hup, hfc, hupc, ?_⟩
      show (t.find _ >>= _) = _
      rw [hparent, ok_bind, hupdate, ok_bind, hhead]
      show (t₂.find _ >>= _) = _
      rw [hchild, ok_bind, hcount]
      rfl
    · -- the node with the child's index is still there
      exfalso
      obtain ⟨p, hp, hpk⟩ := hk
      by_cases hpa : p.1 = a
      · obtain ⟨x, v⟩ := p
        obtain rfl : x = a := hpa
        obtain rfl := Heap.live_unique hp hfp.mem
        have := hmissing _ (hup.mem.mpr (Or.inr rfl))
        exact absurd hpk (of_decide_eq_false this)
      · have := hmissing p (hup.mem.mpr (Or.inl ⟨hpa, hp⟩))
        exact absurd hpk (of_decide_eq_false this)
  · left
    refine ⟨hnone, ?_⟩
    rcases find_cases hw hi fun i => decide (i.index = k) with
      ⟨lc, rc, b, vc, hfc, hchild⟩ | ⟨-, hchild⟩
    · obtain ⟨t₃, hcount, -⟩ :=
        updateFound_eq hw hfc fun i => { i with refCount := u32 (i.refCount + 1) }
      refine ⟨some b, t₃, ?_⟩
      show (t.find _ >>= _) = _
      rw [hparent, ok_bind]
      show (t.find _ >>= _) = _
      rw [hchild, ok_bind, hcount]
      rfl
    · refine ⟨none, t, ?_⟩
      show (t.find _ >>= _) = _
      rw [hparent, ok_bind]
      show (t.find _ >>= _) = _
      rw [hchild]
      rfl

end Searches

/-! ## The copy -/

/-- The first `n` bytes of the file are in blocks. -/
def Readable (v : Inode) (n : Nat) : Prop :=
  ∀ pos, pos < n → ∃ k, v.dataBlocks[pos / dataBlockAllocSize]? = some (k + 1)

section Copy

variable {s : State} {bs : BlockStore} {v : Inode}

/-- A read from the start of a file fails at the first position without
    block. -/
theorem read_from_start (hin : BlocksInside bs v) {n : Nat} (hn : n ≤ fileEnd) :
    ∃ st offset buf, readInode bs v (List.replicate n 0) 0 n = .ok (st, offset, buf) ∧
      buf.length = n ∧ (st = .success ↔ Readable v n) := by
  have hbuf : n ≤ (List.replicate n (0 : UInt8)).length := List.length_replicate.ge
  have hle : u32 (0 + n) ≤ fileEnd := Nat.le_trans (Nat.mod_le _ _) (by omega)
  obtain ⟨⟨st, offset, buf⟩, hread⟩ := readBlocks_inside hin n (0 / dataBlockAllocSize) 0 n 0
    (List.replicate n 0) (Or.inr rfl) (Nat.le_refl n) (by omega) (by omega)
  have hinode : readInode bs v (List.replicate n 0) 0 n = .ok (st, offset, buf) := by
    unfold readInode
    rw [if_neg (Nat.not_lt.mpr hle)]
    exact hread
  have hlen : buf.length = n := (readInode_length hinode).trans List.length_replicate
  refine ⟨st, offset, buf, hinode, hlen, ?_⟩
  constructor
  · rintro rfl pos hpos
    -- a byte that was delivered stands in a block
    have hbyte := (readInode_ok hinode hin).2.2 pos
    rw [if_pos hpos, Nat.zero_add, List.getElem?_eq_getElem (by omega)] at hbyte
    unfold fileByte at hbyte
    cases hb : v.dataBlocks[pos / dataBlockAllocSize]? with
    | none =>
        rw [hb] at hbyte
        exact nomatch hbyte
    | some b =>
        cases b with
        | zero =>
            rw [hb] at hbyte
            exact nomatch hbyte
        | succ k => exact ⟨k, rfl⟩
  · intro hreadable
    have hall : 0 + n ≤ fileEnd := (Nat.zero_add n).trans_le hn
    obtain ⟨offset', buf', hok⟩ := readInode_total hin hbuf hall
      (fun pos _ hpos => hreadable pos (by omega))
    rw [hinode] at hok
    exact (Prod.mk.inj (Except.ok.inj hok)).1

/-- With a size that is none of the negative ones, the buffer and both sizes
    are that number. -/
theorem copyContents_eq {a b : Nat} {p : Inode} (hp : (a, p) ∈ s.inodeTable.live) {n : Nat}
    (hn : p.stat.stSize = n) (hmax : n ≤ fileEnd) :
    copyContents s a b = (do
      let (st, _, buf) ← readInode s.blocks p (List.replicate n 0) 0 n
      if st ≠ .success then .ok (.failure, s)
      else
        let childNode ← s.inodeTable.get b
        let (st, childNode, _, blocks) ← writeInode s.blocks childNode buf 0 n
        let inodeTable ← s.inodeTable.put b childNode
        .ok (if st = .success then .success else .failure, { s with
          inodeTable := inodeTable
          blocks := blocks })) := by
  have hsize : ((n : Int) % 4294967296).toNat = n := by
    simp only [fileEnd, dataBlockAllocSize, fileMaxBlocks] at hmax
    omega
  unfold copyContents
  rw [Table.get_ok.mpr hp, ok_bind]
  simp only [hn, hsize, Int.toNat_natCast, if_neg (Int.not_lt.mpr (Int.natCast_nonneg n))]

/-- The copy of a parent `p` to a child `v`. -/
theorem copyContents_total (hw : WellLinked s) (hs : Sound s.inodeTable s.blocks) {a b : Nat}
    {p : Inode} (hp : (a, p) ∈ s.inodeTable.live) (hfit : SizeFits p)
    {l r : List (Nat × Inode)} (hb : s.inodeTable.live = l ++ (b, v) :: r) :
    ∃ st s', copyContents s a b = .ok (st, s') ∧ s'.filenameTable = s.filenameTable ∧
      (st = .success ↔ Readable p p.stat.stSize.toNat ∧
        newCount v 0 p.stat.stSize.toNat ≤ (freeSlots s.blocks.dataBlockTable).length) := by
  obtain ⟨n, hn⟩ := Int.eq_ofNat_of_zero_le hfit.1
  have hmax : n ≤ fileEnd := Int.ofNat_le.mp (hn ▸ hfit.2)
  have htoNat : p.stat.stSize.toNat = n := by omega
  have hv : (b, v) ∈ s.inodeTable.live := by
    rw [hb]
    exact List.mem_append_right _ (List.mem_cons_self ..)
  obtain ⟨st, offset, buf, hread, hlen, hst⟩ := read_from_start (hs.blocksInside hp) hmax
  rw [copyContents_eq hp hn hmax, hread, ok_bind, htoNat]
  by_cases hsucc : st = .success
  · subst hsucc
    have hreadable := hst.mp rfl
    simp only [ne_eq, not_true_eq_false, if_false]
    have hu : u32 (0 + n) ≤ fileEnd := Nat.le_trans (Nat.mod_le _ _) (by omega)
    rw [Table.get_ok.mpr hv, ok_bind, writeInode_after (hs.blocksInside hv) hlen.ge hu, ok_bind]
    by_cases henough : newCount v 0 n ≤ (freeSlots s.blocks.dataBlockTable).length
    · obtain ⟨t, ht, -⟩ := hw.inodes.put_split hb
        { inodeAfter s.blocks v 0 n with stat.stSize := u32 (0 + n) }
      simp only [if_pos henough]
      rw [ht]
      exact ⟨_, _, rfl, rfl, iff_of_true rfl ⟨hreadable, henough⟩⟩
    · obtain ⟨t, ht, -⟩ := hw.inodes.put_split hb (inodeAfter s.blocks v 0 n)
      simp only [if_neg henough]
      rw [ht]
      exact ⟨_, _, rfl, rfl, iff_of_false (by decide) fun h => henough h.2⟩
  · simp only [ne_eq, hsucc, not_false_eq_true, if_true]
    exact ⟨_, _, rfl, rfl, iff_of_false (by decide) fun h => hsucc (hst.mpr h.1)⟩

end Copy

/-! ## Exactly the soft links that leave nothing behind -/

/-- There is no new name, no new inode and no change in the block table, and
    the same request tried again is not told that the name is taken unless it
    was told so the first time. -/
structure NothingAdded (s s' : State) (st : Status) (name newName : Filename) : Prop where
  names : ∀ p ∈ s'.filenameTable.live, p ∈ s.filenameTable.live
  inodes : ∀ p ∈ s'.inodeTable.live, ∃ v, (p.1, v) ∈ s.inodeTable.live
  table : s'.blocks.dataBlockTable = s.blocks.dataBlockTable
  retry : ∀ env owner ownerGroup mode s'', createSoftLink s' env name newName owner ownerGroup mode
    = .ok (.filenameTaken, s'') → st = .filenameTaken

/-- A soft link that fails adds nothing. -/
def LinkFailsCleanly (s : State) (env : Env) (name newName : Filename) (owner ownerGroup : Nat)
    (mode : Int) : Prop :=
  ∀ st s', createSoftLink s env name newName owner ownerGroup mode = .ok (st, s') →
    st ≠ .success → NothingAdded s s' st name newName

/-- There is an inode for the head pointer, the parent is found and has no
    hole, and there are slots enough for the child. -/
def CopyFits (s : State) (name : Filename) (w : Inode) : Prop :=
  s.inodeTable.live ≠ [] ∧ ∃ p v, firstInode s.inodeTable w (nodeOf s.filenameTable name) = some p ∧
    firstInode s.inodeTable w w.index = some v ∧ Readable p p.stat.stSize.toNat ∧
    newCount v 0 p.stat.stSize.toNat ≤ (freeSlots s.blocks.dataBlockTable).length

/-- A list head points to a freed node, the request is refused at once, or the
    copy fits. -/
def NothingToTakeBack (s : State) (name newName : Filename) (w : Inode) : Prop :=
  ¬ s.filenameTable.Intact ∨ ¬ s.inodeTable.Intact ∨ lookup s.filenameTable name = none ∨
    lookup s.filenameTable newName ≠ none ∨ CopyFits s name w

section Links

variable {s : State} {env : Env} {name newName : Filename} {owner ownerGroup : Nat} {mode : Int}

theorem newCount_congr {v v' : Inode} (h : v'.dataBlocks = v.dataBlocks) (offset size : Nat) :
    newCount v' offset size = newCount v offset size := by
  unfold newCount startsInside
  rw [h]

theorem Readable.congr {v v' : Inode} (h : v'.dataBlocks = v.dataBlocks) {n : Nat} :
    Readable v' n ↔ Readable v n := by
  unfold Readable
  rw [h]

variable (env owner ownerGroup mode) in
/-- A call that is not refused adds the new inode and the new name, and goes
    on to the links and the copy. -/
theorem createSoftLink_added (hw : WellLinked s) (hn : s.filenameTable.Intact)
    (hi : s.inodeTable.Intact) (hknown : lookup s.filenameTable name ≠ none)
    (hfree : lookup s.filenameTable newName = none) :
    ∃ c t₁ e tn, s.inodeTable.Pushed t₁ c
        (softLink (nextIndex s.inodeTable) owner ownerGroup mode (env.clock 0)) ∧
      s.filenameTable.Pushed tn e ⟨nextIndex s.inodeTable, newName⟩ ∧
      createSoftLink s env name newName owner ownerGroup mode = (do
        let (parent, child, t) ← linkParentAndChild t₁ env s.inodeTable.head
          (nodeOf s.filenameTable name) (nextIndex s.inodeTable)
        match parent, child with
        | some parent, some child =>
            copyContents { s with inodeTable := t, filenameTable := tn } parent child
        | _, _ => .ok (.failure, { s with inodeTable := t, filenameTable := tn })) := by
  obtain ⟨found, hindex, hfound⟩ := @getIndex_total s.filenameTable name hw.names hn
  obtain rfl := hfound.mpr hknown
  obtain ⟨c, t₁, hadd, hpushi⟩ := addInode_total hw.inodes hi FileType.fSymlink.code owner
    ownerGroup 0 mode 0 (env.clock 0) (env.clock 0) (env.clock 0)
  obtain ⟨e, tn, hname, hpushn⟩ := addFilename_total hw.names hn hfree (nextIndex s.inodeTable)
  refine ⟨c, t₁, e, tn, hpushi, hpushn, ?_⟩
  unfold createSoftLink
  rw [hindex, ok_bind]
  simp only [ne_eq, not_true_eq_false, if_false]
  rw [checkTaken_total hw.names hn, hfree, ok_bind]
  show (addInode _ _ _ _ _ _ _ _ _ _ >>= _) = _
  rw [hadd, ok_bind]
  show (addFilenameToTable _ _ _ >>= _) = _
  rw [hname]
  rfl

/-- A call that is not refused has added a name, and succeeds if the copy
    fits. -/
theorem createSoftLink_total (hw : WellLinked s) (hs : Sound s.inodeTable s.blocks)
    (hfit : s.inodeTable.All SizeFits) (hn : s.filenameTable.Intact) (hi : s.inodeTable.Intact)
    (hknown : lookup s.filenameTable name ≠ none) (hfree : lookup s.filenameTable newName = none) :
    ∃ st s' a, createSoftLink s env name newName owner ownerGroup mode = .ok (st, s') ∧
      s.filenameTable.Pushed s'.filenameTable a ⟨nextIndex s.inodeTable, newName⟩ ∧
      (st = .success ↔ CopyFits s name
        (softLink (nextIndex s.inodeTable) owner ownerGroup mode (env.clock 0))) := by
  obtain ⟨c, t₁, e, tn, hpush, hpushn, hcall⟩ := createSoftLink_added env owner ownerGroup
    mode hw hn hi hknown hfree
  rw [hcall]
  cases hlive : s.inodeTable.live with
  | nil =>
      -- the head pointer is `NULL`, and the new inode does not hang on it
      have hhead : s.inodeTable.head = none := by
        rw [show s.inodeTable.head = firstPtr s.inodeTable.live from hi, hlive]
        rfl
      rw [hhead, link_from_null]
      exact ⟨_, _, e, rfl, hpushn, iff_of_false (by decide) fun h => h.1 hlive⟩
  | cons q rest =>
      have hne : s.inodeTable.live ≠ [] := by
        rw [hlive]
        exact List.cons_ne_nil q rest
      rw [← head_of_pushed hpush hne]
      have hnew : ∃ p ∈ t₁.live, p.2.index = nextIndex s.inodeTable :=
        ⟨_, hpush.mem.mpr (Or.inr rfl), rfl⟩
      rcases link_total hpush.wf hpush.intact hnew with
        ⟨hnone, child, t₃, hlink⟩ | ⟨lp, rp, a, vp, t₂, lc, rc, b, vc, t₃, hfp, hup, hfc, hupc, hlink⟩
      · rw [hlink]
        refine ⟨_, _, e, rfl, hpushn, iff_of_false (by decide) ?_⟩
        rintro ⟨-, p, v, hp, -⟩
        rw [firstInode_of_none hpush hnone] at hp
        exact nomatch hp
      · rw [hlink, ok_bind]
        have hparent := firstInode_of_found hpush hfp
        obtain ⟨v, hchild, hvc⟩ := firstInode_touched hpush hup ⟨rfl, rfl, rfl⟩ hfc
        have hs₃ := ((hs.pushed hpush rfl).touched hup ⟨rfl, rfl, rfl⟩).touched hupc ⟨rfl, rfl, rfl⟩
        have hfit₁ : t₁.All SizeFits := hpush.all hfit ⟨Int.le_refl 0, Int.natCast_nonneg fileEnd⟩
        have hfit₃ : t₃.All SizeFits := hupc.replaced.all
          (hup.replaced.all hfit₁ (SizeFits.same ⟨rfl, rfl, rfl⟩)) (SizeFits.same ⟨rfl, rfl, rfl⟩)
        have hw₃ : WellLinked { s with inodeTable := t₃, filenameTable := tn } :=
          ⟨hupc.wf, hpushn.wf, hw.descs, hw.headed⟩
        -- the parent as the copy sees it
        obtain ⟨p, hp, hpsame⟩ : ∃ p, (a, p) ∈ t₃.live ∧ SameFile vp p := by
          by_cases hab : a = b
          · subst hab
            have hold : (a, { vp with stat.stAtim := env.clock 1 }) ∈ t₂.live :=
              hup.mem.mpr (Or.inr rfl)
            obtain rfl := Heap.live_unique hold hfc.mem
            exact ⟨_, hupc.mem.mpr (Or.inr rfl), rfl, rfl, rfl⟩
          · exact ⟨_, hupc.mem.mpr (Or.inl ⟨hab, hup.mem.mpr (Or.inr rfl)⟩), rfl, rfl, rfl⟩
        obtain ⟨st, s', hcopy, hnames, hst⟩ := copyContents_total hw₃ hs₃ hp (hfit₃ _ hp) hupc.after
        refine ⟨st, s', e, hcopy, ?_, ?_⟩
        · rw [hnames]
          exact hpushn
        · have hcounted : SameFile v { vc with refCount := u32 (vc.refCount + 1) } :=
            ⟨hvc.index, hvc.blocks, hvc.size⟩
          rw [hst, hpsame.size, Readable.congr hpsame.blocks, newCount_congr hcounted.blocks]
          constructor
          · intro hcopied
            exact ⟨hne, vp, v, hparent, hchild, hcopied⟩
          · rintro ⟨-, p', v', hp', hv', hcopied⟩
            obtain rfl := Option.some.inj (hp'.symm.trans hparent)
            obtain rfl := Option.some.inj (hv'.symm.trans hchild)
            exact hcopied

/-- A refused call leaves the state as it was. -/
theorem createSoftLink_refused (hw : WellLinked s) (hn : s.filenameTable.Intact)
    (h : lookup s.filenameTable name = none ∨ lookup s.filenameTable newName ≠ none) :
    createSoftLink s env name newName owner ownerGroup mode = .ok
      (if lookup s.filenameTable name = none then .fileNotFound else .filenameTaken, s) := by
  obtain ⟨found, hindex, hfound⟩ := @getIndex_total s.filenameTable name hw.names hn
  unfold createSoftLink
  rw [hindex, ok_bind]
  by_cases hknown : lookup s.filenameTable name = none
  · have hmiss : found ≠ .success := fun he => hfound.mp he hknown
    simp only [if_pos hmiss, if_pos hknown]
  · obtain rfl := hfound.mpr hknown
    obtain ⟨k, hk⟩ := Option.ne_none_iff_exists'.mp (h.resolve_left hknown)
    simp only [ne_eq, not_true_eq_false, if_false, if_neg hknown]
    rw [checkTaken_total hw.names hn, hk]
    rfl

/-- A call that returned was made with intact lists, as far as it used them. -/
theorem createSoftLink_intact (hw : WellLinked s) {st : Status} {s' : State}
    (h : createSoftLink s env name newName owner ownerGroup mode = .ok (st, s')) :
    s.filenameTable.Intact ∧ (lookup s.filenameTable name ≠ none →
      lookup s.filenameTable newName = none → s.inodeTable.Intact) := by
  unfold createSoftLink at h
  obtain ⟨⟨found, n⟩, hg, h⟩ := bind_ok_iff.mp h
  have hn := intact_of_getIndex hw.names hg
  refine ⟨hn, ?_⟩
  intro hknown hfree
  have hfound : found = .success := by
    rcases getIndex_ok hw.names hg with ⟨hst, -⟩ | ⟨-, hl, -⟩
    · exact hst
    · exact absurd hl hknown
  simp only [hfound, ne_eq, not_true_eq_false, if_false] at h
  rw [checkTaken_total hw.names hn, hfree, ok_bind] at h
  obtain ⟨⟨k, t₁⟩, hadd, -⟩ := bind_ok_iff.mp h
  obtain ⟨-, c, hpush⟩ := addInode_ok hw.inodes hadd
  exact hpush.before

theorem linkFailsCleanly_iff (hw : WellLinked s) (hs : Sound s.inodeTable s.blocks)
    (hfit : s.inodeTable.All SizeFits) :
    LinkFailsCleanly s env name newName owner ownerGroup mode ↔ NothingToTakeBack s name newName
      (softLink (nextIndex s.inodeTable) owner ownerGroup mode (env.clock 0)) := by
  constructor
  · intro hclean
    by_contra hnot
    unfold NothingToTakeBack at hnot
    simp only [not_or, not_not] at hnot
    obtain ⟨hn, hi, hknown, hfree, hnofit⟩ := hnot
    obtain ⟨st, s', a, hcall, hpush, hst⟩ := createSoftLink_total hw hs hfit hn hi hknown hfree
    have hfails : st ≠ .success := fun hsucc => hnofit (hst.mp hsucc)
    -- the name that was added gives it away
    have hadded := (hclean st s' hcall hfails).names _ (hpush.mem.mpr (Or.inr rfl))
    exact absurd rfl (hpush.not_mem hadded)
  · intro hcond st s' hcall hst
    obtain ⟨hn, hi⟩ := createSoftLink_intact hw hcall
    by_cases hrefused : lookup s.filenameTable name = none ∨ lookup s.filenameTable newName ≠ none
    · -- a refused request is refused again
      rw [createSoftLink_refused hw hn hrefused] at hcall
      obtain ⟨rfl, rfl⟩ := Prod.mk.inj (Except.ok.inj hcall)
      refine ⟨fun p hp => hp, fun p hp => ⟨p.2, hp⟩, rfl, ?_⟩
      intro env' owner' ownerGroup' mode' s'' hagain
      rw [createSoftLink_refused hw hn hrefused] at hagain
      exact (Prod.mk.inj (Except.ok.inj hagain)).1
    · obtain ⟨hknown, hfree⟩ := not_or.mp hrefused
      have hfree' := not_not.mp hfree
      obtain ⟨st₁, s₁, a, hcall', -, hiff⟩ :=
        createSoftLink_total hw hs hfit hn (hi hknown hfree') hknown hfree'
      obtain ⟨rfl, rfl⟩ := Prod.mk.inj (Except.ok.inj (hcall.symm.trans hcall'))
      rcases hcond with hbad | hbad | hmiss | htaken | hfits
      · exact absurd hn hbad
      · exact absurd (hi hknown hfree') hbad
      · exact absurd hmiss hknown
      · exact absurd hfree' htaken
      · exact absurd (hiff.mpr hfits) hst

/-- In every reachable state, for all names and callers, a soft link that
    fails leaves nothing behind exactly if it meets the condition. -/
theorem failed_symlink_atomic {es : List Event} {s : State} (hr : ServiceRun es s) (env : Env)
    (name newName : Filename) (owner ownerGroup : Nat) (mode : Int) :
    LinkFailsCleanly s env name newName owner ownerGroup mode ↔ NothingToTakeBack s name newName
      (softLink (nextIndex s.inodeTable) owner ownerGroup mode (env.clock 0)) :=
  linkFailsCleanly_iff (wellLinked_of_run hr) (sound_of_run hr) (sizesFit_of_run hr)

end Links

/-- File `b` gets the index of an unlinked file, and its first byte through
    the descriptor that was opened on that one. -/
def holeRun : List Request :=
  [.create ⟨1, 1, 0o600, nameX⟩, .create ⟨1, 1, 0o600, nameA⟩, .open ⟨1, 1, nameA, 1⟩,
    .write ⟨1, 1, 0, 4097, List.replicate 4097 65⟩, .unlink ⟨1, 1, nameA⟩,
    .create ⟨1, 1, 0o600, nameB⟩, .write ⟨1, 1, 0, 1, [66]⟩]

/-- There a soft link to a missing file and one with a taken name fail and
    leave nothing behind. -/
theorem failed_symlinks_refused : returns holeRun = true ∧
    ∀ names ∈ [(nameA, nameA), (nameX, nameB)], ∃ st s',
      createSoftLink (replay holeRun) stillEnv names.1 names.2 1 1 0o600 = .ok (st, s') ∧
        st ≠ .success ∧ NothingAdded (replay holeRun) s' st names.1 names.2 := by
  have hreturns : returns holeRun = true := by decide +kernel
  obtain ⟨es, hr⟩ := run_replay hreturns
  have hfails : ∀ names ∈ [(nameA, nameA), (nameX, nameB)],
      (createSoftLink (replay holeRun) stillEnv names.1 names.2 1 1 0o600).toOption.any
        (fun p => decide (p.1 ≠ .success)) = true := by decide +kernel
  have hrefused : ∀ names ∈ [(nameA, nameA), (nameX, nameB)],
      lookup (replay holeRun).filenameTable names.1 = none ∨
        lookup (replay holeRun).filenameTable names.2 ≠ none := by decide +kernel
  refine ⟨hreturns, fun names hmem => ?_⟩
  obtain ⟨⟨st, s'⟩, hcall, hst⟩ := (Option.any_eq_true _ _).mp (hfails names hmem)
  have hclean := (failed_symlink_atomic hr stillEnv names.1 names.2 1 1 0o600).mpr
    ((hrefused names hmem).elim (fun h => Or.inr (Or.inr (Or.inl h)))
      fun h => Or.inr (Or.inr (Or.inr (Or.inl h))))
  exact ⟨st, s', toOption_some hcall, of_decide_eq_true hst,
    hclean st s' (toOption_some hcall) (of_decide_eq_true hst)⟩

/-- A soft link to `b` fails at the missing first block, and its name stays. -/
theorem failed_symlink_not_undone : ¬ ∀ (es : List Event) (s : State) (env : Env)
    (name newName : Filename) (owner ownerGroup : Nat) (mode : Int), ServiceRun es s →
    LinkFailsCleanly s env name newName owner ownerGroup mode := by
  intro hclaim
  -- what the run comes to, and the call after it
  have hrun : returns holeRun = true ∧
      (createSoftLink (replay holeRun) stillEnv nameB nameA 1 1 0o600).map
        (fun r => (r.1, r.2.filenameTable.live.map Prod.fst)) = .ok (.failure, [0, 2, 3]) ∧
      ∀ p ∈ (replay holeRun).filenameTable.live, p.1 ≠ 3 := by decide +kernel
  obtain ⟨hreturns, hcall, hnames⟩ := hrun
  obtain ⟨es, hr⟩ := run_replay hreturns
  have hclean := hclaim es _ stillEnv nameB nameA 1 1 0o600 hr
  cases hlink : createSoftLink (replay holeRun) stillEnv nameB nameA 1 1 0o600 with
  | error e =>
      rw [hlink] at hcall
      exact nomatch hcall
  | ok r =>
      obtain ⟨st, s'⟩ := r
      rw [hlink] at hcall
      obtain ⟨rfl, haddrs⟩ := Prod.mk.inj (Except.ok.inj hcall)
      -- the entry at address 3 is new
      have hmem : 3 ∈ s'.filenameTable.live.map Prod.fst := by
        rw [haddrs]
        decide
      obtain ⟨p, hp, haddr⟩ := List.mem_map.mp hmem
      exact hnames p ((hclean _ _ hlink (by decide)).names p hp) haddr

end LibfsSpecs
