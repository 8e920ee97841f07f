import Libfs.BlockSpecs
import Libfs.TableSpecs

/-! # What the functions on files do

    One rule for each function of `inode.c` that combines the tables, read
    from a call that returned: either it did nothing and says so, or it found
    the nodes it names and changed exactly these. -/

namespace LibfsSpecs

open LibfsHeap LibfsStdio LibfsCommon LibfsInode LibfsOperations

/-- The tables of a state are well linked, and the head pointer of the
    descriptor table, the only one that is handed over by address, is right. -/
structure WellLinked (s : State) : Prop where
  inodes : s.inodeTable.WF
  names : s.filenameTable.WF
  descs : s.descriptorTable.WF
  headed : s.descriptorTable.Intact

theorem wellLinked_init : WellLinked State.init where
  inodes := Table.wf_empty
  names := Table.wf_empty
  descs := Table.wf_empty
  headed := Table.intact_empty

/-- A search of the inode table came to the inode at `a`, the first one that
    carries the index `n`. -/
abbrev FoundInode (t : Table Inode) (n : Nat) (l r : List (Nat × Inode)) (a : Nat)
    (v : Inode) : Prop :=
  t.Found (fun i => i.index = n) l r a v

/-- A search of the descriptor table came to the descriptor at `a`. -/
abbrev FoundDesc (t : Table Descriptor) (fd : Nat) (l r : List (Nat × Descriptor)) (a : Nat)
    (d : Descriptor) : Prop :=
  t.Found (fun d => d.desc = fd) l r a d

theorem FoundInode.index {t : Table Inode} {n a : Nat} {l r : List (Nat × Inode)} {v : Inode}
    (hf : FoundInode t n l r a v) : v.index = n :=
  of_decide_eq_true hf.passes

theorem FoundDesc.desc {t : Table Descriptor} {fd a : Nat} {l r : List (Nat × Descriptor)}
    {d : Descriptor} (hf : FoundDesc t fd l r a d) : d.desc = fd :=
  of_decide_eq_true hf.passes

/-! ## Reading an inode's attributes -/

/-- What a permission check gets to see. -/
theorem getPermissions_ok {s : State} (hw : WellLinked s) {name : Filename} {st : Status}
    {file : OwnerGroupPerms} (h : getFileOwnerGroupPermissions s name = .ok (st, file)) :
    (st = .success ∧ ∃ l r a v, FoundInode s.inodeTable (nodeOf s.filenameTable name) l r a v ∧
        file = ⟨v.owner, v.ownerGroup, v.mode⟩) ∨
      (st = .failure ∧ file = ⟨0, 0, 0⟩ ∧
        ∀ p ∈ s.inodeTable.live, p.2.index ≠ nodeOf s.filenameTable name) := by
  unfold getFileOwnerGroupPermissions at h
  obtain ⟨⟨found, n⟩, hg, h⟩ := bind_ok_iff.mp h
  have hn := getIndex_nodeOf hw.names hg
  simp only [if_neg found.code_ne_neg_one] at h
  obtain ⟨q, hq, h⟩ := bind_ok_iff.mp h
  rw [hn] at hq
  cases q with
  | none =>
      cases h
      exact Or.inr ⟨rfl, rfl, fun p hp => by simpa using hw.inodes.find_none hq p hp⟩
  | some a =>
      obtain ⟨l, v, r, hf⟩ := hw.inodes.find_some hq
      change (s.inodeTable.get a >>= _) = _ at h
      rw [hf.get] at h
      cases h
      exact Or.inl ⟨rfl, l, r, a, v, hf, rfl⟩

theorem getStat_ok {s s' : State} (hw : WellLinked s) {env : Env} {name : Filename} {st : Status}
    {stat : Option Stat} (h : getFileStatFromInode s env name = .ok (st, stat, s')) :
    (st = .success ∧ ∃ l r a v t, FoundInode s.inodeTable (nodeOf s.filenameTable name) l r a v ∧
        s.inodeTable.Updated t l r a v { v with stat.stAtim := env.clock 0 } ∧
        stat = some v.stat ∧ s' = { s with inodeTable := t }) ∨
      (st ≠ .success ∧ s' = s) := by
  unfold getFileStatFromInode at h
  obtain ⟨⟨found, n⟩, hg, h⟩ := bind_ok_iff.mp h
  have hn := getIndex_nodeOf hw.names hg
  simp only [if_neg found.code_ne_neg_one] at h
  obtain ⟨q, hq, h⟩ := bind_ok_iff.mp h
  rw [hn] at hq
  cases q with
  | none =>
      cases h
      exact Or.inr ⟨by decide, rfl⟩
  | some a =>
      obtain ⟨l, v, r, hf⟩ := hw.inodes.find_some hq
      obtain ⟨t, ht, hup⟩ := hw.inodes.put_split hf.split { v with stat.stAtim := env.clock 0 }
      change (s.inodeTable.get a >>= _) = _ at h
      rw [hf.get, ok_bind, ht] at h
      cases h
      exact Or.inl ⟨rfl, l, r, a, v, t, hf, hup, rfl, rfl⟩

/-! ## Changing an inode's attributes -/

theorem chmodInode_ok {s s' : State} (hw : WellLinked s) {env : Env} {name : Filename}
    {mode : Int} {st : Status} (h : chmodInode s env name mode = .ok (st, s')) :
    (st = .success ∧ ∃ l r a v t, FoundInode s.inodeTable (nodeOf s.filenameTable name) l r a v ∧
        s.inodeTable.Updated t l r a v { v with
          mode := mode % 4294967296
          stat.stAtim := env.clock 0
          stat.stCtim := env.clock 0 } ∧
        s' = { s with inodeTable := t }) ∨
      (st ≠ .success ∧ s' = s) := by
  unfold chmodInode at h
  obtain ⟨⟨found, n⟩, hg, h⟩ := bind_ok_iff.mp h
  have hn := getIndex_nodeOf hw.names hg
  by_cases hfound : found = .failure
  · simp only [if_pos hfound] at h
    cases h
    exact Or.inr ⟨by decide, rfl⟩
  simp only [if_neg hfound] at h
  obtain ⟨q, hq, h⟩ := bind_ok_iff.mp h
  rw [hn] at hq
  cases q with
  | none =>
      cases h
      exact Or.inr ⟨by decide, rfl⟩
  | some a =>
      obtain ⟨l, v, r, hf⟩ := hw.inodes.find_some hq
      obtain ⟨t, ht, hup⟩ := hw.inodes.put_split hf.split { v with
        mode := mode % 4294967296
        stat.stAtim := env.clock 0
        stat.stCtim := env.clock 0 }
      change (s.inodeTable.get a >>= _) = _ at h
      rw [hf.get, ok_bind, ht] at h
      cases h
      exact Or.inl ⟨rfl, l, r, a, v, t, hf, hup, rfl⟩

/-! ## Removing a name -/

/-- The inode of a name that was unlinked: one reference fewer. -/
def Inode.unlinked (v : Inode) (now : Timespec) : Inode :=
  { v with
    stat.stAtim := now
    stat.stCtim := now
    refCount := u32 (v.refCount + 4294967295) }

/-- The inode stays where it was when it still has a name, and is freed with
    its blocks when it has none. -/
theorem unlinkInode_ok {s s' : State} (hw : WellLinked s) {env : Env} {name : Filename}
    {st : Status} (h : unlinkInode s env name = .ok (st, s')) :
    (st = .success ∧ ∃ l r a v t ln e rn b tn,
        FoundInode s.inodeTable (nodeOf s.filenameTable name) l r a v ∧
        s.filenameTable.Found (fun e => e.filename = name) ln rn b e ∧
        s.filenameTable.Detached tn ln rn b e ∧
        s.inodeTable.Updated t l r a v (Inode.unlinked v (env.clock 0)) ∧
        (((Inode.unlinked v (env.clock 0)).refCount ≠ 0 ∧
            s' = { s with inodeTable := t, filenameTable := tn }) ∨
          ((Inode.unlinked v (env.clock 0)).refCount = 0 ∧ ∃ t' tbl,
            t.Detached t' l r a (Inode.unlinked v (env.clock 0)) ∧
            freeBlocks s.blocks.dataBlockTable v.dataBlocks.toList = .ok tbl ∧
            s' = { s with
              inodeTable := t'
              filenameTable := tn
              blocks := { s.blocks with dataBlockTable := tbl } }))) ∨
      (st ≠ .success ∧ s' = s) := by
  unfold unlinkInode at h
  obtain ⟨⟨found, n⟩, hg, h⟩ := bind_ok_iff.mp h
  have hn := getIndex_nodeOf hw.names hg
  by_cases hfound : found ≠ .success
  · simp only [if_pos hfound] at h
    cases h
    exact Or.inr ⟨by decide, rfl⟩
  simp only [if_neg hfound] at h
  obtain ⟨q, hq, h⟩ := bind_ok_iff.mp h
  rw [hn] at hq
  cases q with
  | none =>
      cases h
      exact Or.inr ⟨by decide, rfl⟩
  | some a =>
      obtain ⟨l, v, r, hf⟩ := hw.inodes.find_some hq
      obtain ⟨t, ht, hup⟩ := hw.inodes.put_split hf.split (Inode.unlinked v (env.clock 0))
      change (s.inodeTable.get a >>= _) = _ at h
      rw [hf.get, ok_bind] at h
      change (s.inodeTable.put a (Inode.unlinked v (env.clock 0)) >>= _) = _ at h
      rw [ht, ok_bind] at h
      have hsome := known_of_getIndex hw.names hg hfound
      -- the name was found once, so the removal finds it again
      have hname : ∀ {stn tn}, removeFilenameFromTable s.filenameTable name = .ok (stn, tn) →
          ∃ ln e rn b, s.filenameTable.Found (fun e => e.filename = name) ln rn b e ∧
            s.filenameTable.Detached tn ln rn b e := by
        intro stn tn hr
        rcases removeFilename_ok hw.names hr with ⟨-, ln, e, rn, b, hfn, hdn⟩ | ⟨-, -, hnone⟩
        · exact ⟨ln, e, rn, b, hfn, hdn⟩
        · exact absurd hnone hsome
      by_cases hzero : u32 (v.refCount + 4294967295) = 0
      · rw [if_pos hzero] at h
        obtain ⟨tbl, hfree, h⟩ := bind_ok_iff.mp h
        obtain ⟨t', hdet, hdet'⟩ := hup.wf.detach_split hup.after
        rw [hdet, ok_bind] at h
        obtain ⟨⟨stn, tn⟩, hr, h⟩ := bind_ok_iff.mp h
        cases h
        obtain ⟨ln, e, rn, b, hfn, hdn⟩ := hname hr
        exact Or.inl ⟨rfl, l, r, a, v, t, ln, e, rn, b, tn, hf, hfn, hdn, hup,
          Or.inr ⟨hzero, t', tbl, hdet', hfree, rfl⟩⟩
      · rw [if_neg hzero] at h
        obtain ⟨⟨stn, tn⟩, hr, h⟩ := bind_ok_iff.mp h
        cases h
        obtain ⟨ln, e, rn, b, hfn, hdn⟩ := hname hr
        exact Or.inl ⟨rfl, l, r, a, v, t, ln, e, rn, b, tn, hf, hfn, hdn, hup,
          Or.inl ⟨hzero, rfl⟩⟩

/-! ## Opening, closing and moving a descriptor -/

theorem openInode_ok {s s' : State} (hw : WellLinked s) {env : Env} {name : Filename}
    {mode : OpenMode} {st : Status} {fd : Nat}
    (h : openInode s env name mode = .ok (st, fd, s')) :
    (st = .success ∧ fd = nextDesc s.descriptorTable ∧ ∃ l r a v t td b,
        FoundInode s.inodeTable (nodeOf s.filenameTable name) l r a v ∧
        (∀ p ∈ s.descriptorTable.live, p.2.nodeIndex = v.index → p.2.mode ≠ .writeOnly) ∧
        s.inodeTable.Updated t l r a v { v with stat.stAtim := env.clock 0 } ∧
        s.descriptorTable.Pushed td b ⟨nextDesc s.descriptorTable, mode, 0, v.index⟩ ∧
        s' = { s with inodeTable := t, descriptorTable := td }) ∨
      (st ≠ .success ∧ s' = s) := by
  unfold openInode at h
  obtain ⟨⟨found, n⟩, hg, h⟩ := bind_ok_iff.mp h
  have hn := getIndex_nodeOf hw.names hg
  simp only [if_neg found.code_ne_neg_one] at h
  obtain ⟨writer, hwriter, h⟩ := bind_ok_iff.mp h
  cases writer with
  | true =>
      cases h
      exact Or.inr ⟨by decide, rfl⟩
  | false =>
      rw [if_neg (by decide)] at h
      obtain ⟨q, hq, h⟩ := bind_ok_iff.mp h
      rw [hn] at hq
      cases q with
      | none =>
          cases h
          exact Or.inr ⟨by decide, rfl⟩
      | some a =>
          obtain ⟨l, v, r, hf⟩ := hw.inodes.find_some hq
          obtain ⟨t, ht, hup⟩ := hw.inodes.put_split hf.split
            { v with stat.stAtim := env.clock 0 }
          obtain ⟨⟨fd', td⟩, ha, h⟩ := bind_ok_iff.mp h
          obtain ⟨rfl, b, hpush⟩ := addOpenedDescriptor_ok hw.descs ha
          change (s.inodeTable.get a >>= _) = _ at h
          rw [hf.get, ok_bind, ht] at h
          cases h
          have hv : v.index = n := (FoundInode.index hf).trans hn.symm
          rw [← hv] at hpush hwriter
          exact Or.inl ⟨rfl, rfl, l, r, a, v, t, td, b, hf,
            lookForOpenedWrite_ok hw.descs hwriter, hup, hpush, rfl⟩

theorem closeInode_ok {s s' : State} (hw : WellLinked s) {fd : Nat} {st : Status}
    (h : closeInode s fd = .ok (st, s')) :
    (st = .success ∧ ∃ l r a d t, FoundDesc s.descriptorTable fd l r a d ∧
        s.descriptorTable.Removed t l r a d ∧ s' = { s with descriptorTable := t }) ∨
      (st ≠ .success ∧ s' = s) := by
  unfold closeInode at h
  obtain ⟨⟨st', t⟩, hr, h⟩ := bind_ok_iff.mp h
  rcases removeDescriptor_ok hw.descs hw.headed hr with
    ⟨rfl, l, d, r, a, hf, hrem⟩ | ⟨rfl, rfl, -⟩
  · cases h
    exact Or.inl ⟨rfl, l, r, a, d, t, hf, hrem, rfl⟩
  · cases h
    exact Or.inr ⟨by decide, rfl⟩

theorem seekInodeFd_ok {s s' : State} (hw : WellLinked s) {fd offset : Nat} {st : Status}
    (h : seekInodeFd s fd offset = .ok (st, s')) :
    (st = .success ∧ ∃ ld rd b d li ri a v t,
        FoundDesc s.descriptorTable fd ld rd b d ∧
        FoundInode s.inodeTable d.nodeIndex li ri a v ∧ (offset : Int) ≤ v.stat.stSize ∧
        s.descriptorTable.Updated t ld rd b d { d with offset := offset } ∧
        s' = { s with descriptorTable := t }) ∨
      (st ≠ .success ∧ s' = s) := by
  unfold seekInodeFd at h
  obtain ⟨q, hq, h⟩ := bind_ok_iff.mp h
  cases q with
  | none =>
      cases h
      exact Or.inr ⟨by decide, rfl⟩
  | some b =>
      obtain ⟨ld, d, rd, hfd⟩ := hw.descs.find_some hq
      change (s.descriptorTable.get b >>= _) = _ at h
      rw [hfd.get, ok_bind] at h
      obtain ⟨q, hq, h⟩ := bind_ok_iff.mp h
      cases q with
      | none =>
          cases h
          exact Or.inr ⟨by decide, rfl⟩
      | some a =>
          obtain ⟨li, v, ri, hf⟩ := hw.inodes.find_some hq
          change (s.inodeTable.get a >>= _) = _ at h
          rw [hf.get, ok_bind] at h
          by_cases hlt : (offset : Int) > v.stat.stSize
          · rw [if_pos hlt] at h
            cases h
            exact Or.inr ⟨by decide, rfl⟩
          · rw [if_neg hlt] at h
            obtain ⟨t, ht, hup⟩ := hw.descs.put_split hfd.split { d with offset := offset }
            rw [ht] at h
            cases h
            exact Or.inl ⟨rfl, ld, rd, b, d, li, ri, a, v, t, hfd, hf, Int.not_lt.mp hlt, hup, rfl⟩

/-! ## Reading and writing through a descriptor -/

/-- A call on the descriptor number `fd` comes to the descriptor `d` and to the
    inode `v`. -/
structure Reaches (s : State) (fd b : Nat) (d : Descriptor) (a : Nat) (v : Inode) : Prop where
  desc : s.descriptorTable.find (fun d => d.desc = fd) = .ok (some b)
  opened : s.descriptorTable.get b = .ok d
  inode : s.inodeTable.find (fun i => i.index = d.nodeIndex) = .ok (some a)
  file : s.inodeTable.get a = .ok v

/-- The nodes it comes to are the first ones in their tables. -/
theorem Reaches.found {s : State} {fd b a : Nat} {d : Descriptor} {v : Inode}
    (h : Reaches s fd b d a v) (hw : WellLinked s) :
    (∃ ld rd, FoundDesc s.descriptorTable fd ld rd b d) ∧
      (∃ li ri, FoundInode s.inodeTable d.nodeIndex li ri a v) ∧ s.inodeTable.Intact := by
  obtain ⟨ld, d', rd, hfd⟩ := hw.descs.find_some h.desc
  obtain ⟨li, v', ri, hf⟩ := hw.inodes.find_some h.inode
  have hd : d' = d := Heap.live_unique hfd.mem (Table.get_ok.mp h.opened)
  have hv : v' = v := Heap.live_unique hf.mem (Table.get_ok.mp h.file)
  subst hd hv
  exact ⟨⟨ld, rd, hfd⟩, ⟨li, ri, hf⟩, hw.inodes.intact_of_find h.inode⟩

theorem Reaches.of_found {s : State} {fd b a : Nat} {d : Descriptor} {v : Inode}
    (hw : WellLinked s) (hi : s.inodeTable.Intact) {ld rd : List (Nat × Descriptor)}
    {li ri : List (Nat × Inode)} (hfd : FoundDesc s.descriptorTable fd ld rd b d)
    (hf : FoundInode s.inodeTable d.nodeIndex li ri a v) : Reaches s fd b d a v where
  desc := hw.descs.find_of_found hw.headed hfd
  opened := hfd.get
  inode := hw.inodes.find_of_found hi hf
  file := hf.get

/-- The inode `write_inode` gets: its times are set before the write. -/
def Inode.written (v : Inode) (now : Timespec) : Inode :=
  { v with
    stat.stAtim := now
    stat.stMtim := now }

/-- What a call of `write_inode_fd` through a descriptor open for writing comes
    down to. -/
theorem Reaches.write_eq {s : State} {fd b a : Nat} {d : Descriptor} {v : Inode}
    (h : Reaches s fd b d a v) (hmode : d.mode = .writeOnly) (env : Env) (buf : Bytes)
    (size : Nat) : writeInodeFd s env fd buf size = (do
      let (st, inode, offset, blocks) ←
        writeInode s.blocks (Inode.written v (env.clock 0)) buf d.offset size
      let inodeTable ← s.inodeTable.put a inode
      let descriptorTable ← s.descriptorTable.put b { d with offset := offset }
      .ok (if st = .success then .success else .failure, { s with
        inodeTable := inodeTable
        descriptorTable := descriptorTable
        blocks := blocks })) := by
  unfold writeInodeFd
  rw [h.desc, ok_bind]
  show (s.descriptorTable.get b >>= _) = _
  rw [h.opened, ok_bind, if_neg (by rw [hmode]; decide), h.inode, ok_bind]
  show (s.inodeTable.get a >>= _) = _
  rw [h.file, ok_bind]
  rfl

/-- A call that comes to `write_inode` returns what it makes of it. -/
theorem Reaches.write_returns {s : State} {fd b a : Nat} {d : Descriptor} {v v' : Inode}
    (h : Reaches s fd b d a v) (hw : WellLinked s) (hmode : d.mode = .writeOnly) {env : Env}
    {buf : Bytes} {size offset : Nat} {st : Status} {bs : BlockStore}
    (hwrite : writeInode s.blocks (Inode.written v (env.clock 0)) buf d.offset size
      = .ok (st, v', offset, bs)) :
    ∃ s', writeInodeFd s env fd buf size
        = .ok (if st = .success then .success else .failure, s') ∧
      s.inodeTable.Replaced s'.inodeTable a v v' ∧
      s.descriptorTable.Replaced s'.descriptorTable b d { d with offset := offset } ∧
      s'.blocks = bs := by
  obtain ⟨⟨ld, rd, hfd⟩, ⟨li, ri, hf⟩, -⟩ := h.found hw
  obtain ⟨t, ht, hup⟩ := hw.inodes.put_split hf.split v'
  obtain ⟨td, htd, hupd⟩ := hw.descs.put_split hfd.split { d with offset := offset }
  refine ⟨{ s with inodeTable := t, descriptorTable := td, blocks := bs }, ?_, hup.replaced,
    hupd.replaced, rfl⟩
  rw [h.write_eq hmode, hwrite, ok_bind]
  show (s.inodeTable.put a v' >>= _) = _
  rw [ht, ok_bind]
  show (s.descriptorTable.put b { d with offset := offset } >>= _) = _
  rw [htd]
  rfl

/-- A call comes to one descriptor and one inode. -/
theorem Reaches.unique {s : State} {fd b b' a a' : Nat} {d d' : Descriptor} {v v' : Inode}
    (h : Reaches s fd b d a v) (h' : Reaches s fd b' d' a' v') :
    b' = b ∧ d' = d ∧ a' = a ∧ v' = v := by
  obtain rfl : b' = b := Option.some.inj (Except.ok.inj (h'.desc.symm.trans h.desc))
  obtain rfl : d' = d := Except.ok.inj (h'.opened.symm.trans h.opened)
  obtain rfl : a' = a := Option.some.inj (Except.ok.inj (h'.inode.symm.trans h.inode))
  exact ⟨rfl, rfl, rfl, Except.ok.inj (h'.file.symm.trans h.file)⟩

/-- What a call of `read_inode_fd` comes down to. -/
theorem Reaches.read_eq {s : State} {fd b a : Nat} {d : Descriptor} {v : Inode}
    (h : Reaches s fd b d a v) (env : Env) (buf : Bytes) (size : Nat) :
    readInodeFd s env fd buf size = (do
      let inodeTable ← s.inodeTable.put a { v with stat.stAtim := env.clock 0 }
      let (st, offset, buf) ←
        readInode s.blocks { v with stat.stAtim := env.clock 0 } buf d.offset size
      let descriptorTable ← s.descriptorTable.put b { d with offset := offset }
      .ok (if st = .success then .success else .failure, buf, { s with
        inodeTable := inodeTable
        descriptorTable := descriptorTable })) := by
  unfold readInodeFd
  rw [h.desc, ok_bind]
  show (s.descriptorTable.get b >>= _) = _
  rw [h.opened, ok_bind, h.inode, ok_bind]
  show (s.inodeTable.get a >>= _) = _
  rw [h.file, ok_bind]

/-- `write_inode` is called on the inode the descriptor names, whatever comes
    of it. -/
theorem writeInodeFd_ok {s s' : State} (hw : WellLinked s) {env : Env} {fd size : Nat}
    {buf : Bytes} {st : Status} (h : writeInodeFd s env fd buf size = .ok (st, s')) :
    (∃ ld rd b d li ri a v st' v' offset t td bs,
        FoundDesc s.descriptorTable fd ld rd b d ∧ d.mode = .writeOnly ∧
        FoundInode s.inodeTable d.nodeIndex li ri a v ∧
        writeInode s.blocks (Inode.written v (env.clock 0)) buf d.offset size
          = .ok (st', v', offset, bs) ∧
        (st = .success ↔ st' = .success) ∧
        s.inodeTable.Updated t li ri a v v' ∧
        s.descriptorTable.Updated td ld rd b d { d with offset := offset } ∧
        s' = { s with inodeTable := t, descriptorTable := td, blocks := bs }) ∨
      (st ≠ .success ∧ s' = s) := by
  unfold writeInodeFd at h
  obtain ⟨q, hq, h⟩ := bind_ok_iff.mp h
  cases q with
  | none =>
      cases h
      exact Or.inr ⟨by decide, rfl⟩
  | some b =>
      obtain ⟨ld, d, rd, hfd⟩ := hw.descs.find_some hq
      change (s.descriptorTable.get b >>= _) = _ at h
      rw [hfd.get, ok_bind] at h
      by_cases hmode : d.mode = .readOnly
      · rw [if_pos hmode] at h
        cases h
        exact Or.inr ⟨by decide, rfl⟩
      rw [if_neg hmode] at h
      have hwrite : d.mode = .writeOnly := by
        cases hm : d.mode with
        | readOnly => exact absurd hm hmode
        | writeOnly => rfl
      obtain ⟨q, hq, h⟩ := bind_ok_iff.mp h
      cases q with
      | none =>
          cases h
          exact Or.inr ⟨by decide, rfl⟩
      | some a =>
          obtain ⟨li, v, ri, hf⟩ := hw.inodes.find_some hq
          change (s.inodeTable.get a >>= _) = _ at h
          rw [hf.get, ok_bind] at h
          obtain ⟨⟨st', v', offset, bs⟩, hwr, h⟩ := bind_ok_iff.mp h
          obtain ⟨t, ht, hup⟩ := hw.inodes.put_split hf.split v'
          obtain ⟨td, htd, hupd⟩ := hw.descs.put_split hfd.split { d with offset := offset }
          change (s.inodeTable.put a v' >>= _) = _ at h
          rw [ht, ok_bind, htd] at h
          cases h
          refine Or.inl ⟨ld, rd, b, d, li, ri, a, v, st', v', offset, t, td, bs, hfd, hwrite, hf,
            hwr, ?_, hup, hupd, rfl⟩
          by_cases hst : st' = .success
          · simp [hst]
          · simp [hst]

/-- `read_inode` is called on the inode the descriptor names, whatever comes
    of it. -/
theorem readInodeFd_ok {s s' : State} (hw : WellLinked s) {env : Env} {fd size : Nat}
    {buf buf' : Bytes} {st : Status} (h : readInodeFd s env fd buf size = .ok (st, buf', s')) :
    (∃ ld rd b d li ri a v st' offset t td,
        FoundDesc s.descriptorTable fd ld rd b d ∧
        FoundInode s.inodeTable d.nodeIndex li ri a v ∧
        readInode s.blocks { v with stat.stAtim := env.clock 0 } buf d.offset size
          = .ok (st', offset, buf') ∧
        (st = .success ↔ st' = .success) ∧
        s.inodeTable.Updated t li ri a v { v with stat.stAtim := env.clock 0 } ∧
        s.descriptorTable.Updated td ld rd b d { d with offset := offset } ∧
        s' = { s with inodeTable := t, descriptorTable := td }) ∨
      (st ≠ .success ∧ s' = s) := by
  unfold readInodeFd at h
  obtain ⟨q, hq, h⟩ := bind_ok_iff.mp h
  cases q with
  | none =>
      cases h
      exact Or.inr ⟨by decide, rfl⟩
  | some b =>
      obtain ⟨ld, d, rd, hfd⟩ := hw.descs.find_some hq
      change (s.descriptorTable.get b >>= _) = _ at h
      rw [hfd.get, ok_bind] at h
      obtain ⟨q, hq, h⟩ := bind_ok_iff.mp h
      cases q with
      | none =>
          cases h
          exact Or.inr ⟨by decide, rfl⟩
      | some a =>
          obtain ⟨li, v, ri, hf⟩ := hw.inodes.find_some hq
          obtain ⟨t, ht, hup⟩ := hw.inodes.put_split hf.split
            { v with stat.stAtim := env.clock 0 }
          change (s.inodeTable.get a >>= _) = _ at h
          rw [hf.get, ok_bind] at h
          change (s.inodeTable.put a { v with stat.stAtim := env.clock 0 } >>= _) = _ at h
          rw [ht, ok_bind] at h
          obtain ⟨⟨st', offset, got⟩, hrd, h⟩ := bind_ok_iff.mp h
          obtain ⟨td, htd, hupd⟩ := hw.descs.put_split hfd.split { d with offset := offset }
          change (s.descriptorTable.put b _ >>= _) = _ at h
          rw [htd] at h
          cases h
          refine Or.inl ⟨ld, rd, b, d, li, ri, a, v, st', offset, t, td, hfd, hf, hrd, ?_, hup,
            hupd, rfl⟩
          by_cases hst : st' = .success
          · simp [hst]
          · simp [hst]

/-! ## Links -/

/-- The inode of a file that got one more hard link. -/
def Inode.linked (v : Inode) (now : Timespec) : Inode :=
  { v with
    refCount := u32 (v.refCount + 1)
    stat.stAtim := now
    stat.stCtim := now }

theorem createHardLink_ok {s s' : State} (hw : WellLinked s) {env : Env}
    {name newName : Filename} {st : Status}
    (h : createHardLink s env name newName = .ok (st, s')) :
    (st = .success ∧ lookup s.filenameTable newName = none ∧ ∃ l r a v t tn b,
        FoundInode s.inodeTable (nodeOf s.filenameTable name) l r a v ∧
        s.inodeTable.Updated t l r a v (Inode.linked v (env.clock 0)) ∧
        s.filenameTable.Pushed tn b ⟨v.index, newName⟩ ∧
        s' = { s with inodeTable := t, filenameTable := tn }) ∨
      (st ≠ .success ∧ s' = s) := by
  unfold createHardLink at h
  obtain ⟨⟨found, n⟩, hg, h⟩ := bind_ok_iff.mp h
  have hn := getIndex_nodeOf hw.names hg
  simp only [if_neg found.code_ne_neg_one] at h
  obtain ⟨taken, htaken, h⟩ := bind_ok_iff.mp h
  have htak := checkTaken_ok hw.names htaken
  cases taken with
  | true =>
      cases h
      exact Or.inr ⟨by decide, rfl⟩
  | false =>
      rw [if_neg (by decide)] at h
      obtain ⟨q, hq, h⟩ := bind_ok_iff.mp h
      rw [hn] at hq
      cases q with
      | none =>
          cases h
          exact Or.inr ⟨by decide, rfl⟩
      | some a =>
          obtain ⟨l, v, r, hf⟩ := hw.inodes.find_some hq
          obtain ⟨t, ht, hup⟩ := hw.inodes.put_split hf.split (Inode.linked v (env.clock 0))
          change (s.inodeTable.get a >>= _) = _ at h
          rw [hf.get, ok_bind] at h
          obtain ⟨⟨stn, tn⟩, ha, h⟩ := bind_ok_iff.mp h
          change (s.inodeTable.put a (Inode.linked v (env.clock 0)) >>= _) = _ at h
          rw [ht] at h
          cases h
          rcases addFilename_ok hw.names ha with ⟨-, hnone, b, hpush⟩ | ⟨-, -, hsome⟩
          · exact Or.inl ⟨rfl, hnone, l, r, a, v, t, tn, b, hf, hup, hpush, rfl⟩
          · rw [← htak] at hsome
            exact Bool.noConfusion hsome

/-- The head pointer of a table that was not empty stays when a node is hung
    behind the others. -/
theorem head_of_pushed {t t' : Table Inode} {a : Nat} {v : Inode} (h : t.Pushed t' a v)
    (hne : t.live ≠ []) : t'.head = t.head := by
  rw [show t'.head = firstPtr t'.live from h.intact, show t.head = firstPtr t.live from h.before,
    h.after]
  cases hl : t.live with
  | nil => exact absurd hl hne
  | cons p l => rfl

/-- An update of a node that a search came to. -/
theorem updateFound_ok {t t' : Table Inode} (hw : t.WF) {f : Inode → Inode} {n a : Nat}
    {l r : List (Nat × Inode)} {v : Inode} (hf : FoundInode t n l r a v)
    (h : updateFound t (some a) f = .ok t') : t.Updated t' l r a v (f v) := by
  obtain ⟨t₁, ht, hup⟩ := hw.put_split hf.split (f v)
  change (t.get a >>= _) = _ at h
  rw [hf.get, ok_bind, ht] at h
  cases h
  exact hup

/-- The searches of `create_soft_link` come to the first inodes with the two
    indices when both are in use. -/
theorem linkParentAndChild_ok {t t' : Table Inode} (hw : t.WF) {env : Env} {head : Ptr}
    {n k : Nat} {parent child : Ptr} (hhead : t.head = head)
    (hn : ∃ p ∈ t.live, p.2.index = n) (hk : ∃ p ∈ t.live, p.2.index = k)
    (h : linkParentAndChild t env head n k = .ok (parent, child, t')) :
    ∃ lp rp a vp t₁ lc rc b vc, parent = some a ∧ child = some b ∧
      FoundInode t n lp rp a vp ∧
      t.Updated t₁ lp rp a vp { vp with stat.stAtim := env.clock 1 } ∧
      FoundInode t₁ k lc rc b vc ∧
      t₁.Updated t' lc rc b vc { vc with refCount := u32 (vc.refCount + 1) } := by
  subst hhead
  unfold linkParentAndChild at h
  obtain ⟨q, hq, h⟩ := bind_ok_iff.mp h
  cases q with
  | none =>
      obtain ⟨p, hp, rfl⟩ := hn
      have := hw.find_none hq p hp
      simp at this
  | some a =>
      obtain ⟨lp, vp, rp, hfp⟩ := hw.find_some hq
      obtain ⟨t₁, hu, h⟩ := bind_ok_iff.mp h
      have hup := updateFound_ok hw hfp hu
      obtain ⟨q', hq', h⟩ := bind_ok_iff.mp h
      have hq'' : t₁.find (fun i => i.index = k) = .ok q' := by
        unfold Table.find
        rw [hup.head]
        exact hq'
      cases q' with
      | none =>
          exfalso
          obtain ⟨p, hp, rfl⟩ := hk
          have hall := hup.wf.find_none hq''
          rw [hup.before] at hp
          rw [hup.after] at hall
          rcases List.mem_append.mp hp with hp | hp
          · simpa using hall p (List.mem_append_left _ hp)
          · rcases List.mem_cons.mp hp with rfl | hp
            · simpa using hall (a, { vp with stat.stAtim := env.clock 1 }) (by simp)
            · simpa using hall p (by simp [hp])
      | some b =>
          obtain ⟨lc, vc, rc, hfc⟩ := hup.wf.find_some hq''
          obtain ⟨t₂, hu₂, h⟩ := bind_ok_iff.mp h
          cases h
          exact ⟨lp, rp, a, vp, t₁, lc, rc, b, vc, rfl, rfl, hfp, hup, hfc,
            updateFound_ok hup.wf hfc hu₂⟩

/-- The copy writes the child, or it could not read the parent and leaves
    everything as it was. -/
theorem copyContents_ok {s s' : State} (hw : WellLinked s) {a b : Nat} {st : Status}
    {l r : List (Nat × Inode)} {v : Inode} (hb : s.inodeTable.live = l ++ (b, v) :: r)
    (h : copyContents s a b = .ok (st, s')) :
    (∃ buf size st' v' offset t bs, size ≤ buf.length ∧
        writeInode s.blocks v buf 0 size = .ok (st', v', offset, bs) ∧
        (st = .success ↔ st' = .success) ∧ s.inodeTable.Updated t l r b v v' ∧
        s' = { s with inodeTable := t, blocks := bs }) ∨
      (st ≠ .success ∧ s' = s) := by
  unfold copyContents at h
  obtain ⟨parent, -, h⟩ := bind_ok_iff.mp h
  by_cases hneg : parent.stat.stSize < 0
  · simp only [if_pos hneg] at h
    exact nomatch h
  simp only [if_neg hneg] at h
  obtain ⟨⟨st₁, off₁, buf⟩, hrd, h⟩ := bind_ok_iff.mp h
  have hlen := readInode_length hrd
  rw [List.length_replicate] at hlen
  by_cases hst : st₁ ≠ .success
  · simp only [if_pos hst] at h
    cases h
    exact Or.inr ⟨by decide, rfl⟩
  simp only [if_neg hst] at h
  obtain ⟨v₁, hv₁, h⟩ := bind_ok_iff.mp h
  have hv : v₁ = v := Heap.live_unique (Table.get_ok.mp hv₁) (by
    show _ ∈ s.inodeTable.live
    rw [hb]
    simp)
  subst hv
  obtain ⟨⟨st', v', offset, bs⟩, hwr, h⟩ := bind_ok_iff.mp h
  obtain ⟨t, ht, hup⟩ := hw.inodes.put_split hb v'
  change (s.inodeTable.put b v' >>= _) = _ at h
  rw [ht] at h
  cases h
  refine Or.inl ⟨buf, _, st', v', offset, t, bs, by omega, hwr, ?_, hup, rfl⟩
  by_cases hst' : st' = .success
  · simp [hst']
  · simp [hst']

/-- The inode `create_soft_link` adds. -/
def softLink (index owner ownerGroup : Nat) (mode : Int) (now : Timespec) : Inode :=
  ⟨index, FileType.fSymlink.code, ⟨0, now, now, now⟩, mode, owner, ownerGroup, 0,
    Vector.replicate fileMaxBlocks 0⟩

/-- When the parent is in use, as every caller has checked, a soft link adds an
    inode and a name, touches the two inodes the searches come to and copies. -/
theorem createSoftLink_ok {s s' : State} (hw : WellLinked s) {env : Env}
    {name newName : Filename} {owner ownerGroup : Nat} {mode : Int} {st : Status}
    (hused : ∃ p ∈ s.inodeTable.live, p.2.index = nodeOf s.filenameTable name)
    (h : createSoftLink s env name newName owner ownerGroup mode = .ok (st, s')) :
    (lookup s.filenameTable name ≠ none ∧ lookup s.filenameTable newName = none ∧
      ∃ t₁ c tn e lp rp a vp t₂ lc rc b vc t₃,
        s.inodeTable.Pushed t₁ c
          (softLink (nextIndex s.inodeTable) owner ownerGroup mode (env.clock 0)) ∧
        s.filenameTable.Pushed tn e ⟨nextIndex s.inodeTable, newName⟩ ∧
        FoundInode t₁ (nodeOf s.filenameTable name) lp rp a vp ∧
        t₁.Updated t₂ lp rp a vp { vp with stat.stAtim := env.clock 1 } ∧
        FoundInode t₂ (nextIndex s.inodeTable) lc rc b vc ∧
        t₂.Updated t₃ lc rc b vc { vc with refCount := u32 (vc.refCount + 1) } ∧
        copyContents { s with inodeTable := t₃, filenameTable := tn } a b = .ok (st, s')) ∨
      (st ≠ .success ∧ s' = s) := by
  unfold createSoftLink at h
  obtain ⟨⟨found, n⟩, hg, h⟩ := bind_ok_iff.mp h
  have hn := getIndex_nodeOf hw.names hg
  by_cases hfound : found ≠ .success
  · simp only [if_pos hfound] at h
    cases h
    exact Or.inr ⟨by decide, rfl⟩
  simp only [if_neg hfound] at h
  have hknown := known_of_getIndex hw.names hg hfound
  obtain ⟨taken, htaken, h⟩ := bind_ok_iff.mp h
  have htak := checkTaken_ok hw.names htaken
  cases taken with
  | true =>
      cases h
      exact Or.inr ⟨by decide, rfl⟩
  | false =>
      rw [if_neg (by decide)] at h
      obtain ⟨⟨k, t₁⟩, hadd, h⟩ := bind_ok_iff.mp h
      obtain ⟨rfl, c, hpush⟩ := addInode_ok hw.inodes hadd
      obtain ⟨⟨stn, tn⟩, hname, h⟩ := bind_ok_iff.mp h
      rcases addFilename_ok hw.names hname with ⟨rfl, hnone, e, hpushn⟩ | ⟨-, -, hsome⟩
      · simp only [ne_eq, not_true_eq_false, if_false] at h
        obtain ⟨⟨parent, child, t₃⟩, hlink, h⟩ := bind_ok_iff.mp h
        have hne : s.inodeTable.live ≠ [] := by
          obtain ⟨p, hp, -⟩ := hused
          exact List.ne_nil_of_mem hp
        have hparent : ∃ p ∈ t₁.live, p.2.index = n := by
          obtain ⟨p, hp, hpn⟩ := hused
          rw [hpush.after]
          exact ⟨p, List.mem_append_left _ hp, hpn.trans hn.symm⟩
        have hchild : ∃ p ∈ t₁.live, p.2.index = nextIndex s.inodeTable :=
          ⟨_, hpush.mem_new, rfl⟩
        have hhead := head_of_pushed hpush hne
        obtain ⟨lp, rp, a, vp, t₂, lc, rc, b, vc, rfl, rfl, hfp, hup, hfc, hupc⟩ :=
          linkParentAndChild_ok hpush.wf hhead hparent hchild hlink
        rw [hn] at hfp
        exact Or.inl ⟨hknown, hnone, t₁, c, tn, e, lp, rp, a, vp, t₂, lc, rc, b, vc, t₃, hpush,
          hpushn, hfp, hup, hfc, hupc, h⟩
      · rw [← htak] at hsome
        exact Bool.noConfusion hsome

end LibfsSpecs
