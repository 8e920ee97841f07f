import Libfs.FileSpecs

/-! # What one request does

    `Change s e s'` says everything a handled request can do, table by table;
    `step_change` proves it of the handlers once, and every invariant is a
    case analysis over it. -/

namespace LibfsSpecs

open LibfsHeap LibfsStdio LibfsCommon LibfsInode LibfsOperations LibfsRun

/-- What stays the same of an inode when only its times, its mode or its
    number of names change. -/
structure SameFile (v v' : Inode) : Prop where
  index : v'.index = v.index
  blocks : v'.dataBlocks = v.dataBlocks
  size : v'.stat.stSize = v.stat.stSize

/-- The inode `service_create` adds. -/
def newFile (index : Nat) (args : CreateArgs) (now : Timespec) : Inode :=
  ⟨index, FileType.fRegular.code, ⟨0, now, now, now⟩, args.accessMode, args.fileOwner, args.fileGroup, 1,
    Vector.replicate fileMaxBlocks 0⟩

/-- The request hangs a new inode on the inode table. -/
def AddsInode (s : State) : Request → Prop
  | .create args => lookup s.filenameTable args.filename = none
  | .symlink args =>
      lookup s.filenameTable args.filename ≠ none ∧ lookup s.filenameTable args.linkname = none ∧
        ∃ l r a v, FoundInode s.inodeTable (nodeOf s.filenameTable args.filename) l r a v ∧
          readDenied args.fileOwner args.fileGroup ⟨v.owner, v.ownerGroup, v.mode⟩ = false
  | _ => False

/-- The change a handled request makes. -/
inductive Change (s : State) (e : Event) : State → Prop where
  /-- The request was refused and nothing happened. -/
  | refused (hst : e.response.status ≠ .success) : Change s e s
  | created {args : CreateArgs} {t : Table Inode} {a : Nat} {tn : Table FilenameInode} {b : Nat}
      (hreq : e.request = .create args) (hst : e.response.status = .success)
      (hfree : lookup s.filenameTable args.filename = none)
      (hi : s.inodeTable.Pushed t a (newFile (nextIndex s.inodeTable) args (e.env.clock 0)))
      (hn : s.filenameTable.Pushed tn b ⟨nextIndex s.inodeTable, args.filename⟩) :
      Change s e { s with inodeTable := t, filenameTable := tn }
  /-- `CHMODE` and `STAT`. -/
  | touched {t : Table Inode} {l r : List (Nat × Inode)} {a : Nat} {v v' : Inode}
      (hreq : (∃ args, e.request = .chmode args) ∨ ∃ args, e.request = .stat args)
      (hst : e.response.status = .success)
      (hi : s.inodeTable.Updated t l r a v v') (hsame : SameFile v v')
      (hcount : v'.refCount = v.refCount) :
      Change s e { s with inodeTable := t }
  | renamed {args : RenameArgs} {tn : Table FilenameInode} {l r : List (Nat × FilenameInode)}
      {b : Nat} {x : FilenameInode}
      (hreq : e.request = .rename args) (hst : e.response.status = .success)
      (hfree : lookup s.filenameTable args.newname = none)
      (hx : s.filenameTable.Found (fun x => x.filename = args.oldname) l r b x)
      (hn : s.filenameTable.Updated tn l r b x { x with filename := args.newname }) :
      Change s e { s with filenameTable := tn }
  | linked {args : LinkArgs} {t : Table Inode} {l r : List (Nat × Inode)} {a : Nat} {v : Inode}
      {tn : Table FilenameInode} {b : Nat}
      (hreq : e.request = .link args) (hst : e.response.status = .success)
      (hfree : lookup s.filenameTable args.linkname = none)
      (hv : FoundInode s.inodeTable (nodeOf s.filenameTable args.filename) l r a v)
      (hi : s.inodeTable.Updated t l r a v (Inode.linked v (e.env.clock 0)))
      (hn : s.filenameTable.Pushed tn b ⟨v.index, args.linkname⟩)
      (hallowed : readDenied args.fileOwner args.fileGroup ⟨v.owner, v.ownerGroup, v.mode⟩
        = false) :
      Change s e { s with inodeTable := t, filenameTable := tn }
  /-- The parent is touched, the child counted, then the child is written
      unless the parent could not be read. -/
  | symlinked {args : SymlinkArgs} {t₁ : Table Inode} {c : Nat} {tn : Table FilenameInode}
      {x : Nat} {lp rp : List (Nat × Inode)} {a : Nat} {vp : Inode} {t₂ : Table Inode}
      {lc rc : List (Nat × Inode)} {b : Nat} {vc : Inode} {t₃ : Table Inode} {s' : State}
      (hreq : e.request = .symlink args) (hadds : AddsInode s e.request)
      (hfree : lookup s.filenameTable args.linkname = none)
      (hi : s.inodeTable.Pushed t₁ c (softLink (nextIndex s.inodeTable) args.fileOwner
        args.fileGroup args.mode (e.env.clock 0)))
      (hn : s.filenameTable.Pushed tn x ⟨nextIndex s.inodeTable, args.linkname⟩)
      (hp : FoundInode t₁ (nodeOf s.filenameTable args.filename) lp rp a vp)
      (hip : t₁.Updated t₂ lp rp a vp { vp with stat.stAtim := e.env.clock 1 })
      (hc : FoundInode t₂ (nextIndex s.inodeTable) lc rc b vc)
      (hic : t₂.Updated t₃ lc rc b vc { vc with refCount := u32 (vc.refCount + 1) })
      (hcopy : copyContents { s with inodeTable := t₃, filenameTable := tn } a b
        = .ok (e.response.status, s')) : Change s e s'
  | opened {args : OpenArgs} {mode : OpenMode} {t : Table Inode} {l r : List (Nat × Inode)}
      {a : Nat} {v : Inode} {td : Table Descriptor} {b : Nat}
      (hreq : e.request = .open args)
      (hresp : e.response = ⟨.success, .descriptor (nextDesc s.descriptorTable)⟩)
      (hmode : OpenMode.ofFlags args.flags = some mode)
      (hperm : openStatus .success args ⟨v.owner, v.ownerGroup, v.mode⟩ = .success)
      (hv : FoundInode s.inodeTable (nodeOf s.filenameTable args.filename) l r a v)
      (hwriter : ∀ p ∈ s.descriptorTable.live, p.2.nodeIndex = v.index → p.2.mode ≠ .writeOnly)
      (hi : s.inodeTable.Updated t l r a v { v with stat.stAtim := e.env.clock 0 })
      (hd : s.descriptorTable.Pushed td b ⟨nextDesc s.descriptorTable, mode, 0, v.index⟩) :
      Change s e { s with inodeTable := t, descriptorTable := td }
  | closed {args : CloseArgs} {td : Table Descriptor} {l r : List (Nat × Descriptor)} {b : Nat}
      {d : Descriptor}
      (hreq : e.request = .close args) (hst : e.response.status = .success)
      (hfd : FoundDesc s.descriptorTable args.fd l r b d)
      (hd : s.descriptorTable.Removed td l r b d) :
      Change s e { s with descriptorTable := td }
  | wrote {args : WriteArgs} {data : Bytes} {ld rd : List (Nat × Descriptor)} {b : Nat}
      {d : Descriptor} {l r : List (Nat × Inode)} {a : Nat} {v v' : Inode} {st : Status}
      {offset : Nat} {t : Table Inode} {td : Table Descriptor} {bs : BlockStore}
      (hreq : e.request = .write args) (hdata : slice args.data 0 args.size = .ok data)
      (hfd : FoundDesc s.descriptorTable args.fd ld rd b d) (hmode : d.mode = .writeOnly)
      (hv : FoundInode s.inodeTable d.nodeIndex l r a v)
      (hwr : writeInode s.blocks (Inode.written v (e.env.clock 0)) data d.offset args.size
        = .ok (st, v', offset, bs))
      (hst : e.response.status = .success ↔ st = .success)
      (hi : s.inodeTable.Updated t l r a v v')
      (hd : s.descriptorTable.Updated td ld rd b d { d with offset := offset }) :
      Change s e { s with inodeTable := t, descriptorTable := td, blocks := bs }
  | read {args : ReadArgs} {ld rd : List (Nat × Descriptor)} {b : Nat} {d : Descriptor}
      {l r : List (Nat × Inode)} {a : Nat} {v : Inode} {st : Status} {offset : Nat} {buf : Bytes}
      {t : Table Inode} {td : Table Descriptor}
      (hreq : e.request = .read args)
      (hfd : FoundDesc s.descriptorTable args.fd ld rd b d)
      (hv : FoundInode s.inodeTable d.nodeIndex l r a v)
      (hrd : readInode s.blocks { v with stat.stAtim := e.env.clock 0 }
        (e.env.malloc args.size) d.offset args.size = .ok (st, offset, buf))
      (hst : e.response.status = .success ↔ st = .success)
      (hpay : e.response.status = .success → e.response.payload = .bytes buf)
      (hi : s.inodeTable.Updated t l r a v { v with stat.stAtim := e.env.clock 0 })
      (hd : s.descriptorTable.Updated td ld rd b d { d with offset := offset }) :
      Change s e { s with inodeTable := t, descriptorTable := td }
  | sought {args : SeekArgs} {ld rd : List (Nat × Descriptor)} {b : Nat} {d : Descriptor}
      {l r : List (Nat × Inode)} {a : Nat} {v : Inode} {td : Table Descriptor}
      (hreq : e.request = .seek args) (hst : e.response.status = .success)
      (hfd : FoundDesc s.descriptorTable args.fd ld rd b d)
      (hv : FoundInode s.inodeTable d.nodeIndex l r a v)
      (hsize : (args.offset : Int) ≤ v.stat.stSize)
      (hd : s.descriptorTable.Updated td ld rd b d { d with offset := args.offset }) :
      Change s e { s with descriptorTable := td }
  /-- `UNLINK` of a name whose inode keeps another one. -/
  | unlinkedName {args : UnlinkArgs} {l r : List (Nat × Inode)} {a : Nat} {v : Inode}
      {t : Table Inode} {ln rn : List (Nat × FilenameInode)} {b : Nat} {x : FilenameInode}
      {tn : Table FilenameInode}
      (hreq : e.request = .unlink args) (hst : e.response.status = .success)
      (hv : FoundInode s.inodeTable (nodeOf s.filenameTable args.name) l r a v)
      (hx : s.filenameTable.Found (fun x => x.filename = args.name) ln rn b x)
      (hn : s.filenameTable.Detached tn ln rn b x)
      (hi : s.inodeTable.Updated t l r a v (Inode.unlinked v (e.env.clock 0)))
      (hcount : u32 (v.refCount + 4294967295) ≠ 0) :
      Change s e { s with inodeTable := t, filenameTable := tn }
  /-- `UNLINK` of the last name of an inode. -/
  | unlinkedFile {args : UnlinkArgs} {l r : List (Nat × Inode)} {a : Nat} {v : Inode}
      {t t' : Table Inode} {ln rn : List (Nat × FilenameInode)} {b : Nat} {x : FilenameInode}
      {tn : Table FilenameInode} {tbl : Vector DataBlock numOfDataBlocks}
      (hreq : e.request = .unlink args) (hst : e.response.status = .success)
      (hv : FoundInode s.inodeTable (nodeOf s.filenameTable args.name) l r a v)
      (hx : s.filenameTable.Found (fun x => x.filename = args.name) ln rn b x)
      (hn : s.filenameTable.Detached tn ln rn b x)
      (hi : s.inodeTable.Updated t l r a v (Inode.unlinked v (e.env.clock 0)))
      (hcount : u32 (v.refCount + 4294967295) = 0)
      (hi' : t.Detached t' l r a (Inode.unlinked v (e.env.clock 0)))
      (hblk : freeBlocks s.blocks.dataBlockTable v.dataBlocks.toList = .ok tbl) :
      Change s e { s with
        inodeTable := t'
        filenameTable := tn
        blocks := { s.blocks with dataBlockTable := tbl } }

/-- The child a soft link counts is the new inode, unless another one already
    carries the new index. -/
theorem child_is_new {t t₁ t₂ : Table Inode} {n c a b : Nat} {new vp vp' vc : Inode}
    {lp rp lc rc : List (Nat × Inode)} (hi : t.Pushed t₁ c new)
    (hip : t₁.Updated t₂ lp rp a vp vp') (hsame : SameFile vp vp')
    (hcount : vp'.refCount = vp.refCount) (hfresh : ∀ p ∈ t.live, p.2.index ≠ n)
    (hc : FoundInode t₂ n lc rc b vc) :
    b = c ∧ SameFile new vc ∧ vc.refCount = new.refCount := by
  have hold : ∀ x w, (x, w) ∈ t₁.live → w.index = n → x = c ∧ w = new := by
    intro x w hw hn
    rcases hi.mem.mp hw with hw | he
    · exact absurd hn (hfresh _ hw)
    · cases he
      exact ⟨rfl, rfl⟩
  rcases hip.mem.mp hc.mem with ⟨-, hmem⟩ | he
  · obtain ⟨rfl, rfl⟩ := hold b vc hmem (FoundInode.index hc)
    exact ⟨rfl, ⟨rfl, rfl, rfl⟩, rfl⟩
  · cases he
    obtain ⟨rfl, rfl⟩ := hold a vp hip.mem_old (hsame.index.symm.trans (FoundInode.index hc))
    exact ⟨rfl, hsame, hcount⟩

/-! ## The handlers, one by one -/

/-- A permission check that passed was made on the inode of the name. -/
theorem checked_found {s : State} (hw : WellLinked s) {name : Filename} {found : Status}
    {file : OwnerGroupPerms} (hg : getFileOwnerGroupPermissions s name = .ok (found, file))
    (hs : found = .success) :
    ∃ l r a v, FoundInode s.inodeTable (nodeOf s.filenameTable name) l r a v ∧
      file = ⟨v.owner, v.ownerGroup, v.mode⟩ := by
  rcases getPermissions_ok hw hg with ⟨-, h⟩ | ⟨hf, -⟩
  · exact h
  · exact nomatch hf.symm.trans hs

/-- A check that passed has found the file. -/
theorem checkedStatus_success {found : Status} {denied : Bool}
    (h : checkedStatus found denied = .success) : found = .success ∧ denied = false := by
  unfold checkedStatus at h
  cases denied with
  | true => exact nomatch h
  | false => exact ⟨h, rfl⟩

/-- Only success is turned into success. -/
theorem lookupStatus_success {found : Status} (h : lookupStatus found = .success) :
    found = .success := by
  unfold lookupStatus at h
  by_cases hf : found = .success
  · exact hf
  · rw [if_neg hf] at h
    exact nomatch h

/-- An `OPEN` that goes on has found the file. -/
theorem openStatus_success {found : Status} {args : OpenArgs} {file : OwnerGroupPerms}
    (h : openStatus found args file = .success) : found = .success := by
  unfold openStatus at h
  cases hm : OpenMode.ofFlags args.flags with
  | none =>
      rw [hm] at h
      exact nomatch h
  | some mode =>
      rw [hm] at h
      cases mode with
      | readOnly => exact lookupStatus_success (checkedStatus_success h).1
      | writeOnly => exact lookupStatus_success (checkedStatus_success h).1

section Handlers

variable {s s' : State} {env : Env} {resp : Response}

/-- `CREATE` adds an inode and a name. -/
theorem create_change (hw : WellLinked s) {args : CreateArgs}
    (h : serviceCreate s env args = .ok (s', resp)) :
    Change s ⟨env, .create args, resp⟩ s' := by
  unfold serviceCreate at h
  obtain ⟨taken, htaken, h⟩ := bind_ok_iff.mp h
  have htak := checkTaken_ok hw.names htaken
  cases taken with
  | true =>
      cases h
      exact .refused (fun hst => nomatch hst)
  | false =>
      obtain ⟨⟨n, t⟩, hadd, h⟩ := bind_ok_iff.mp h
      obtain ⟨⟨st, tn⟩, hname, h⟩ := bind_ok_iff.mp h
      obtain ⟨rfl, a, hpush⟩ := addInode_ok hw.inodes hadd
      rcases addFilename_ok hw.names hname with ⟨rfl, hnone, b, hpushn⟩ | ⟨-, -, hsome⟩
      · cases h
        exact .created rfl rfl hnone hpush hpushn
      · rw [← htak] at hsome
        exact Bool.noConfusion hsome

/-- `RENAME` replaces a name in its entry. -/
theorem rename_change (hw : WellLinked s) {args : RenameArgs}
    (h : serviceRename s args = .ok (s', resp)) :
    Change s ⟨env, .rename args, resp⟩ s' := by
  unfold serviceRename at h
  obtain ⟨⟨st, tn⟩, hr, h⟩ := bind_ok_iff.mp h
  rcases renameFile_ok hw.names hr with ⟨rfl, hfree, l, x, r, b, hx, hup⟩ | ⟨hst, rfl, -⟩
  · cases h
    exact .renamed rfl rfl hfree hx hup
  · cases h
    refine .refused ?_
    show (if st = .success then _ else _) ≠ Status.success
    rw [if_neg hst]
    split <;> decide

/-- `CHMODE` touches one inode. -/
theorem chmode_change (hw : WellLinked s) {args : ChmodeArgs}
    (h : serviceChmode s env args = .ok (s', resp)) :
    Change s ⟨env, .chmode args, resp⟩ s' := by
  unfold serviceChmode at h
  obtain ⟨⟨found, file⟩, hg, h⟩ := bind_ok_iff.mp h
  by_cases hst : checkedStatus found (writeDenied args.fileOwner args.fileGroup file) = .success
  · simp only [if_pos hst] at h
    obtain ⟨⟨st, s₁⟩, hc, h⟩ := bind_ok_iff.mp h
    cases h
    rcases chmodInode_ok hw hc with ⟨rfl, l, r, a, v, t, hf, hup, rfl⟩ | ⟨hne, rfl⟩
    · exact .touched (Or.inl ⟨args, rfl⟩) rfl hup ⟨rfl, rfl, rfl⟩ rfl
    · exact .refused hne
  · simp only [if_neg hst] at h
    cases h
    exact .refused hst

/-- `STAT` touches one inode. -/
theorem stat_change (hw : WellLinked s) {args : StatArgs}
    (h : serviceStat s env args = .ok (s', resp)) :
    Change s ⟨env, .stat args, resp⟩ s' := by
  unfold serviceStat at h
  obtain ⟨⟨found, file⟩, hg, h⟩ := bind_ok_iff.mp h
  by_cases hst : checkedStatus (lookupStatus found)
      (readDenied args.fileOwner args.fileGroup file) = .success
  · simp only [if_pos hst] at h
    obtain ⟨⟨st, stat, s₁⟩, hc, h⟩ := bind_ok_iff.mp h
    cases h
    rcases getStat_ok hw hc with ⟨rfl, l, r, a, v, t, hf, hup, -, rfl⟩ | ⟨hne, rfl⟩
    · exact .touched (Or.inr ⟨args, rfl⟩) rfl hup ⟨rfl, rfl, rfl⟩ rfl
    · exact .refused hne
  · simp only [if_neg hst] at h
    cases h
    exact .refused hst

/-- `LINK` adds a name and counts it. -/
theorem link_change (hw : WellLinked s) {args : LinkArgs}
    (h : serviceLink s env args = .ok (s', resp)) :
    Change s ⟨env, .link args, resp⟩ s' := by
  unfold serviceLink at h
  obtain ⟨⟨found, file⟩, hg, h⟩ := bind_ok_iff.mp h
  by_cases hst : checkedStatus (lookupStatus found)
      (readDenied args.fileOwner args.fileGroup file) = .success
  · simp only [if_pos hst] at h
    obtain ⟨⟨st, s₁⟩, hc, h⟩ := bind_ok_iff.mp h
    cases h
    obtain ⟨hls, hallowed⟩ := checkedStatus_success hst
    obtain ⟨l', r', a', v', hf', rfl⟩ := checked_found hw hg (lookupStatus_success hls)
    rcases createHardLink_ok hw hc with
      ⟨rfl, hfree, l, r, a, v, t, tn, b, hf, hup, hpush, rfl⟩ | ⟨hne, rfl⟩
    · obtain ⟨-, -, -, rfl⟩ := hf.unique hf'
      exact .linked rfl rfl hfree hf hup hpush hallowed
    · exact .refused hne
  · simp only [if_neg hst] at h
    cases h
    exact .refused hst

/-- `SYMLINK` adds an inode and a name, then copies or fails. -/
theorem symlink_change (hw : WellLinked s) {args : SymlinkArgs}
    (h : serviceSymlink s env args = .ok (s', resp)) :
    Change s ⟨env, .symlink args, resp⟩ s' := by
  unfold serviceSymlink at h
  obtain ⟨⟨found, file⟩, hg, h⟩ := bind_ok_iff.mp h
  by_cases hst : checkedStatus (lookupStatus found)
      (readDenied args.fileOwner args.fileGroup file) = .success
  · simp only [if_pos hst] at h
    obtain ⟨⟨st, s₁⟩, hc, h⟩ := bind_ok_iff.mp h
    cases h
    obtain ⟨hls, hallowed⟩ := checkedStatus_success hst
    obtain ⟨l, r, a, v, hf, rfl⟩ := checked_found hw hg (lookupStatus_success hls)
    rcases createSoftLink_ok hw ⟨(a, v), hf.mem, FoundInode.index hf⟩ hc with
      ⟨hknown, hfree, t₁, c, tn, x, lp, rp, a, vp, t₂, lc, rc, b, vc, t₃, hi, hn, hp, hip, hc, hic, hcopy⟩ |
        ⟨hne, rfl⟩
    · exact .symlinked rfl ⟨hknown, hfree, l, r, _, v, hf, hallowed⟩ hfree hi hn hp hip hc hic hcopy
    · exact .refused hne
  · simp only [if_neg hst] at h
    cases h
    exact .refused hst

/-- `OPEN` adds a descriptor on an inode that was found. -/
theorem open_change (hw : WellLinked s) {args : OpenArgs}
    (h : serviceOpen s env args = .ok (s', resp)) :
    Change s ⟨env, .open args, resp⟩ s' := by
  unfold serviceOpen at h
  obtain ⟨⟨found, file⟩, hg, h⟩ := bind_ok_iff.mp h
  by_cases hst : openStatus found args file = .success
  · simp only [hst, if_true] at h
    cases hm : OpenMode.ofFlags args.flags with
    | none =>
        unfold openStatus at hst
        rw [hm] at hst
        exact nomatch hst
    | some mode =>
        rw [hm] at h
        obtain ⟨⟨st, fd, s₁⟩, ho, h⟩ := bind_ok_iff.mp h
        cases h
        have hfound := openStatus_success hst
        obtain ⟨l', r', a', v', hf', hfile⟩ := checked_found hw hg hfound
        rcases openInode_ok hw ho with
          ⟨rfl, rfl, l, r, a, v, t, td, b, hf, hwriter, hup, hpush, rfl⟩ | ⟨hne, rfl⟩
        · obtain ⟨-, -, -, hvv⟩ := hf.unique hf'
          rw [hfound, hfile, hvv] at hst
          exact .opened rfl rfl hm hst hf hwriter hup hpush
        · exact .refused hne
  · cases hm : OpenMode.ofFlags args.flags with
    | none =>
        rw [hm] at h
        cases h
        exact .refused hst
    | some mode =>
        rw [hm] at h
        simp only [if_neg hst] at h
        cases h
        exact .refused hst

/-- `CLOSE` removes a descriptor. -/
theorem close_change (hw : WellLinked s) {args : CloseArgs}
    (h : serviceClose s args = .ok (s', resp)) :
    Change s ⟨env, .close args, resp⟩ s' := by
  unfold serviceClose at h
  obtain ⟨⟨st, s₁⟩, hc, h⟩ := bind_ok_iff.mp h
  cases h
  rcases closeInode_ok hw hc with ⟨rfl, l, r, a, d, t, hf, hrem, rfl⟩ | ⟨hne, rfl⟩
  · exact .closed rfl rfl hf hrem
  · exact .refused hne

/-- `WRITE` moves a descriptor and writes to the file it leads to. -/
theorem write_change (hw : WellLinked s) {args : WriteArgs}
    (h : serviceWrite s env args = .ok (s', resp)) :
    Change s ⟨env, .write args, resp⟩ s' := by
  unfold serviceWrite at h
  obtain ⟨data, hdata, h⟩ := bind_ok_iff.mp h
  obtain ⟨⟨st, s₁⟩, hc, h⟩ := bind_ok_iff.mp h
  cases h
  rcases writeInodeFd_ok hw hc with
    ⟨ld, rd, b, d, l, r, a, v, st', v', offset, t, td, bs, hfd, hmode, hv, hwr, hst, hi, hd, rfl⟩ |
      ⟨hne, rfl⟩
  · exact .wrote rfl hdata hfd hmode hv hwr hst hi hd
  · exact .refused hne

/-- `READ` moves a descriptor. -/
theorem read_change (hw : WellLinked s) {args : ReadArgs}
    (h : serviceRead s env args = .ok (s', resp)) :
    Change s ⟨env, .read args, resp⟩ s' := by
  unfold serviceRead at h
  obtain ⟨⟨st, buf, s₁⟩, hc, h⟩ := bind_ok_iff.mp h
  cases h
  rcases readInodeFd_ok hw hc with
    ⟨ld, rd, b, d, l, r, a, v, st', offset, t, td, hfd, hv, hrd, hst, hi, hd, rfl⟩ | ⟨hne, rfl⟩
  · refine .read rfl hfd hv hrd hst (fun hs => ?_) hi hd
    show Payload.bytes (if st = .success then buf else []) = .bytes buf
    rw [if_pos hs]
  · exact .refused hne

/-- `SEEK` sets the offset of a descriptor. -/
theorem seek_change (hw : WellLinked s) {args : SeekArgs}
    (h : serviceSeek s args = .ok (s', resp)) :
    Change s ⟨env, .seek args, resp⟩ s' := by
  unfold serviceSeek at h
  obtain ⟨⟨st, s₁⟩, hc, h⟩ := bind_ok_iff.mp h
  cases h
  rcases seekInodeFd_ok hw hc with
    ⟨rfl, ld, rd, b, d, l, r, a, v, t, hfd, hv, hsize, hd, rfl⟩ | ⟨hne, rfl⟩
  · exact .sought rfl rfl hfd hv hsize hd
  · exact .refused hne

/-- `UNLINK` removes a name, and the inode when no other name is left. -/
theorem unlink_change (hw : WellLinked s) {args : UnlinkArgs}
    (h : serviceUnlink s env args = .ok (s', resp)) :
    Change s ⟨env, .unlink args, resp⟩ s' := by
  unfold serviceUnlink at h
  obtain ⟨⟨st, s₁⟩, hc, h⟩ := bind_ok_iff.mp h
  cases h
  rcases unlinkInode_ok hw hc with
    ⟨rfl, l, r, a, v, t, ln, x, rn, b, tn, hv, hx, hn, hi,
      ⟨hcount, rfl⟩ | ⟨hcount, t', tbl, hi', hblk, rfl⟩⟩ | ⟨hne, rfl⟩
  · exact .unlinkedName rfl rfl hv hx hn hi hcount
  · exact .unlinkedFile rfl rfl hv hx hn hi hcount hi' hblk
  · exact .refused hne

end Handlers

/-- Every handled request is one of the changes. -/
theorem step_change {s s' : State} {e : Event} (hw : WellLinked s) (h : Step s e s') :
    Change s e s' := by
  obtain ⟨env, request, resp⟩ := e
  cases request with
  | create args => exact create_change hw h
  | chmode args => exact chmode_change hw h
  | rename args => exact rename_change hw h
  | unlink args => exact unlink_change hw h
  | «open» args => exact open_change hw h
  | read args => exact read_change hw h
  | write args => exact write_change hw h
  | seek args => exact seek_change hw h
  | close args => exact close_change hw h
  | stat args => exact stat_change hw h
  | link args => exact link_change hw h
  | symlink args => exact symlink_change hw h

/-! ## Every state of a run is well linked -/

/-- The links of the tables survive every change. -/
theorem Change.wellLinked {s s' : State} {e : Event} (hw : WellLinked s) (h : Change s e s') :
    WellLinked s' := by
  cases h with
  | refused => exact hw
  | created _ _ _ hi hn => exact ⟨hi.wf, hn.wf, hw.descs, hw.headed⟩
  | touched _ _ hi => exact ⟨hi.wf, hw.names, hw.descs, hw.headed⟩
  | renamed _ _ _ _ hn => exact ⟨hw.inodes, hn.wf, hw.descs, hw.headed⟩
  | linked _ _ _ _ hi hn => exact ⟨hi.wf, hn.wf, hw.descs, hw.headed⟩
  | symlinked _ _ _ hi hn hp hip hc hic hcopy =>
      have hmid : WellLinked { s with inodeTable := _, filenameTable := _ } :=
        ⟨hic.wf, hn.wf, hw.descs, hw.headed⟩
      rcases copyContents_ok hmid hic.after hcopy with
        ⟨_, _, _, _, _, _, _, _, _, _, hup, rfl⟩ | ⟨-, rfl⟩
      · exact ⟨hup.wf, hn.wf, hw.descs, hw.headed⟩
      · exact hmid
  | opened _ _ _ _ _ _ hi hd => exact ⟨hi.wf, hw.names, hd.wf, hd.intact⟩
  | closed _ _ _ hd => exact ⟨hw.inodes, hw.names, hd.wf, hd.intact⟩
  | wrote _ _ _ _ _ _ _ hi hd => exact ⟨hi.wf, hw.names, hd.wf, hd.intact.mpr hw.headed⟩
  | read _ _ _ _ _ _ hi hd => exact ⟨hi.wf, hw.names, hd.wf, hd.intact.mpr hw.headed⟩
  | sought _ _ _ _ _ hd => exact ⟨hw.inodes, hw.names, hd.wf, hd.intact.mpr hw.headed⟩
  | unlinkedName _ _ _ _ hn hi => exact ⟨hi.wf, hn.wf, hw.descs, hw.headed⟩
  | unlinkedFile _ _ _ _ hn _ _ hi' => exact ⟨hi'.wf, hn.wf, hw.descs, hw.headed⟩

/-- An invariant is proved by looking at each change of a well linked state. -/
theorem invariant_of_change (inv : State → Prop) (h0 : inv State.init)
    (hchange : ∀ s e s', WellLinked s → inv s → Change s e s' → inv s') {es : List Event}
    {s : State} (hr : ServiceRun es s) : WellLinked s ∧ inv s := by
  refine Run.invariant (fun s => WellLinked s ∧ inv s) ⟨wellLinked_init, h0⟩ ?_ hr
  rintro s e s' ⟨hw, hi⟩ hs
  have hc := step_change hw hs
  exact ⟨hc.wellLinked hw, hchange s e s' hw hi hc⟩

/-- In every state of every run the three tables are well linked. -/
theorem wellLinked_of_run {es : List Event} {s : State} (hr : ServiceRun es s) : WellLinked s :=
  (invariant_of_change (fun _ => True) trivial (fun _ _ _ _ _ _ => trivial) hr).1

end LibfsSpecs
