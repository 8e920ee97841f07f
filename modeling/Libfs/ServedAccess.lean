import Libfs.ServedNames

/-! # What the handlers answer after a permission check

    The check reads the attributes of the file a name leads to.  A request
    that it denies is refused as the file system refuses it; the others go on
    with that file. -/

namespace LibfsSpecs

open LibfsHeap LibfsStdio LibfsCommon LibfsInode LibfsOperations LibfsRun
open LibfsDirectory LibfsFileSystem

section Handlers

variable {s : State} {f : Fs} {env : Env}

/-- The check is made on some attributes; without inode they are zeros. -/
theorem Healthy.permissions_total (hh : Healthy s) (name : Filename) :
    ∃ found file, getFileOwnerGroupPermissions s name = .ok (found, file) ∧
      ((found = .success ∧ ∃ p ∈ s.inodeTable.live, p.2.index = nodeOf s.filenameTable name) ∨
        file = ⟨0, 0, 0⟩) := by
  obtain ⟨st, hget, -⟩ := @getIndex_total s.filenameTable name hh.linked.names hh.agree.entries
  rw [getFileOwnerGroupPermissions, hget, ok_bind]
  simp only [if_neg st.code_ne_neg_one]
  rcases find_cases hh.linked.inodes hh.agree.inodes
    (fun v => v.index = nodeOf s.filenameTable name) with ⟨l, r, a, v, hf, hfind⟩ | ⟨-, hfind⟩
  · rw [hfind, ok_bind]
    refine ⟨.success, Inode.attributes v, ?_, Or.inl ⟨rfl, (a, v), hf.mem, FoundInode.index hf⟩⟩
    show (s.inodeTable.get a >>= _) = _
    rw [hf.get]
    rfl
  · rw [hfind]
    exact ⟨.failure, ⟨0, 0, 0⟩, rfl, Or.inr rfl⟩

/-- Who is denied is told so, before anything else is done. -/
theorem handle_denied {r : Request} {w : Access} (hw : access r = some w) {found : Status}
    {file : OwnerGroupPerms} (hf : getFileOwnerGroupPermissions s w.name = .ok (found, file))
    (hden : w.denied file = true) :
    handle s env r = .ok (s, ⟨.insufficientPerms, refusedPayload r⟩) := by
  cases r with
  | create args | rename args | unlink args | read args | write args | seek args | close args =>
      cases hw
  | chmode args =>
      cases hw
      change getFileOwnerGroupPermissions s args.filename = _ at hf
      change writeDenied args.fileOwner args.fileGroup file = true at hden
      show serviceChmode s env args = _
      rw [serviceChmode, hf, ok_bind]
      simp only [hden]
      rfl
  | stat args =>
      cases hw
      change getFileOwnerGroupPermissions s args.filename = _ at hf
      change readDenied args.fileOwner args.fileGroup file = true at hden
      show serviceStat s env args = _
      rw [serviceStat, hf, ok_bind]
      simp only [hden]
      rfl
  | link args =>
      cases hw
      change getFileOwnerGroupPermissions s args.filename = _ at hf
      change readDenied args.fileOwner args.fileGroup file = true at hden
      show serviceLink s env args = _
      rw [serviceLink, hf, ok_bind]
      simp only [hden]
      rfl
  | symlink args =>
      cases hw
      change getFileOwnerGroupPermissions s args.filename = _ at hf
      change readDenied args.fileOwner args.fileGroup file = true at hden
      show serviceSymlink s env args = _
      rw [serviceSymlink, hf, ok_bind]
      simp only [hden]
      rfl
  | «open» args =>
      cases hmode : OpenMode.ofFlags args.flags with
      | none =>
          change (OpenMode.ofFlags args.flags).map _ = _ at hw
          rw [hmode] at hw
          cases hw
      | some mode =>
          change (OpenMode.ofFlags args.flags).map _ = _ at hw
          rw [hmode] at hw
          cases hw
          change getFileOwnerGroupPermissions s args.filename = _ at hf
          have hst : openStatus found args file = .insufficientPerms := by
            rw [openStatus, hmode]
            cases mode with
            | readOnly => exact if_pos hden
            | writeOnly => exact if_pos hden
          show serviceOpen s env args = _
          rw [serviceOpen, hf, ok_bind]
          simp only [hst, hmode]
          rfl

/-- The part the five requests share: it remains to serve the callers that
    pass the check of an existing file, and those that pass the one of the
    inode a missing name stands for. -/
theorem served_access (hh : Healthy s) (hr : Represents s f) {r : Request} {w : Access}
    (hw : access r = some w)
    (hmiss : f.dir.names w.name = none → (∃ p ∈ s.inodeTable.live, p.2.index = 0) → ∀ file,
      getFileOwnerGroupPermissions s w.name = .ok (.success, file) → w.denied file = false →
      handle s env r = .ok (s, ⟨.fileNotFound, refusedPayload r⟩))
    (hdone : ∀ i o, f.At w.name i o → w.denied o.perms = false → Served s f env r) :
    Served s f env r := by
  by_cases hname : f.dir.names w.name = none
  · obtain ⟨found, file, hp, hcase⟩ := hh.permissions_total w.name
    rw [nodeOf_missing ((hr.lookup_eq _).trans hname)] at hcase
    by_cases hden : w.denied file = true
    · exact served_refused hr (.missing hw hname (Or.inl rfl)) (handle_denied hw hp hden)
    · rcases hcase with ⟨rfl, hzero⟩ | rfl
      · exact served_refused hr (.missing hw hname (Or.inr rfl))
          (hmiss hname hzero file hp (Bool.eq_false_iff.mpr hden))
      · exact absurd w.denied_zeros hden
  · obtain ⟨i, o, ho⟩ := Fs.at_of_name hname
    cases hden : w.denied o.perms with
    | false => exact hdone i o ho hden
    | true =>
        exact served_refused hr (.denied hw ho hden) (handle_denied hw (hr.permissions hh ho) hden)

/-- Where the name must exist, no missing name passes the check. -/
theorem Admissible.not_zero {r : Request} {w : Access} (hg : Admissible s r) (hr : Represents s f)
    (hw : access r = some w) (hc : ∀ args, r ≠ .chmode args) (hs : ∀ args, r ≠ .symlink args)
    (hname : f.dir.names w.name = none) : ¬ ∃ p ∈ s.inodeTable.live, p.2.index = 0 := by
  rintro ⟨p, hp, hzero⟩
  rcases hg.known w hw hc hs with hknown | hnone
  · exact hknown ((hr.lookup_eq _).trans hname)
  · exact hnone p hp hzero

/-- A file that passes the check may be used. -/
theorem allowed_of {r : Request} {w : Access} (hw : access r = some w) {o : File}
    (h : w.denied o.perms = false) : Allowed r o := by
  intro w' hw'
  rw [hw] at hw'
  cases hw'
  exact h

/-- `CHMODE` sets the mode of a file its caller may write. -/
theorem served_chmode (hh : Healthy s) (hr : Represents s f) {args : ChmodeArgs} :
    Served s f env (.chmode args) := by
  refine served_access hh hr (w := ⟨.writeOnly, args.fileOwner, args.fileGroup, args.filename⟩) rfl
    ?_ ?_
  · intro hname _ file hp hden
    change getFileOwnerGroupPermissions s args.filename = _ at hp
    change writeDenied args.fileOwner args.fileGroup file = false at hden
    show serviceChmode s env args = _
    rw [serviceChmode, hp, ok_bind]
    simp only [hden]
    show (chmodInode s env args.filename args.accessMode >>= _) = _
    rw [chmodInode_missing hh.linked hh.agree.entries ((hr.lookup_eq _).trans hname)]
    rfl
  · intro i o ho hden
    have hok : Allowed (.chmode args) o := allowed_of rfl hden
    obtain ⟨hnode, l, r, a, v, hf, hold⟩ := hr.at ho
    change writeDenied args.fileOwner args.fileGroup o.perms = false at hden
    obtain ⟨t, hput, hup⟩ := hh.linked.inodes.put_split hf.split { v with
      mode := args.accessMode % 4294967296
      stat.stAtim := env.clock 0
      stat.stCtim := env.clock 0 }
    refine ⟨{ s with inodeTable := t }, ⟨.success, .nothing⟩, _, ?_,
      .modeChanged rfl ho hok rfl, hr.names, ?_, hr.handles⟩
    · show serviceChmode s env args = _
      rw [serviceChmode, hr.permissions hh ho, ok_bind]
      simp only [hden]
      show (chmodInode s env args.filename args.accessMode >>= _) = _
      rw [chmodInode, getIndex_eq hh.linked.names hh.agree.entries, hr.lookup_eq, ho.1, ok_bind]
      show ((s.inodeTable.find _ >>= _) >>= _) = _
      rw [hh.linked.inodes.find_of_found hh.agree.inodes hf, ok_bind]
      show ((s.inodeTable.get a >>= _) >>= _) = _
      rw [hf.get, ok_bind, hput]
      rfl
    · have hnew := hold.changed (env.clock 0) v.refCount
      exact hr.files.touched hh.agree.distinct ho.2 hf hup rfl
        ⟨hnew.stat, by
          show OwnerGroupPerms.mk v.owner v.ownerGroup _ = OwnerGroupPerms.mk o.owner o.group _
          rw [show v.owner = o.owner from congrArg OwnerGroupPerms.owner hold.perms,
            show v.ownerGroup = o.group from congrArg OwnerGroupPerms.group hold.perms], hold.kind,
          hold.bytes⟩

/-- `STAT` reports the attributes of a file its caller may read. -/
theorem served_stat (hh : Healthy s) (hr : Represents s f) {args : StatArgs}
    (hg : Admissible s (.stat args)) : Served s f env (.stat args) := by
  refine served_access hh hr (w := ⟨.readOnly, args.fileOwner, args.fileGroup, args.filename⟩) rfl
    ?_ ?_
  · intro hname hzero
    exact absurd hzero (hg.not_zero hr rfl (fun _ h => by cases h) (fun _ h => by cases h) hname)
  · intro i o ho hden
    have hok : Allowed (.stat args) o := allowed_of rfl hden
    obtain ⟨hnode, l, r, a, v, hf, hold⟩ := hr.at ho
    change readDenied args.fileOwner args.fileGroup o.perms = false at hden
    obtain ⟨t, hput, hup⟩ := hh.linked.inodes.put_split hf.split
      { v with stat.stAtim := env.clock 0 }
    refine ⟨{ s with inodeTable := t }, ⟨.success, .fileStat (some o.stat)⟩, _, ?_,
      .reported rfl ho hok rfl, hr.names, ?_, hr.handles⟩
    · show serviceStat s env args = _
      rw [serviceStat, hr.permissions hh ho, ok_bind]
      simp only [hden]
      show (getFileStatFromInode s env args.filename >>= _) = _
      rw [getFileStatFromInode, getIndex_eq hh.linked.names hh.agree.entries, hr.lookup_eq, ho.1,
        ok_bind]
      simp only [if_neg (Status.code_ne_neg_one _)]
      rw [hh.linked.inodes.find_of_found hh.agree.inodes hf, ok_bind]
      show ((s.inodeTable.get a >>= _) >>= _) = _
      rw [hf.get, ok_bind, hput, ← hold.stat]
      rfl
    · exact hr.files.touched hh.agree.distinct ho.2 hf hup rfl (hold.accessed _)

/-- `LINK` gives a file that may be read one more name. -/
theorem served_link (hh : Healthy s) (hr : Represents s f) {args : LinkArgs}
    (hg : Admissible s (.link args)) : Served s f env (.link args) := by
  refine served_access hh hr (w := ⟨.readOnly, args.fileOwner, args.fileGroup, args.filename⟩) rfl
    ?_ ?_
  · intro hname hzero
    exact absurd hzero (hg.not_zero hr rfl (fun _ h => by cases h) (fun _ h => by cases h) hname)
  · intro i o ho hden
    have hok : Allowed (.link args) o := allowed_of rfl hden
    obtain ⟨hnode, l, r, a, v, hf, hold⟩ := hr.at ho
    have hfn : FoundInode s.inodeTable (nodeOf s.filenameTable args.filename) l r a v := by
      rw [hnode]
      exact hf
    have hv : v.index = i := FoundInode.index hf
    change readDenied args.fileOwner args.fileGroup o.perms = false at hden
    by_cases hfree : f.dir.names args.linkname = none
    · have hlook : lookup s.filenameTable args.linkname = none := (hr.lookup_eq _).trans hfree
      obtain ⟨s', hlink⟩ := @createHardLink_total s env args.filename args.linkname l r a v
        hh.linked hh.agree.entries hh.agree.inodes hlook hfn
      rcases createHardLink_ok hh.linked hlink with
        ⟨-, -, l', r', a', v', t, tn, b, hf', hup, hpush, rfl⟩ | ⟨hne, -⟩
      · obtain ⟨rfl, rfl, rfl, rfl⟩ := hfn.unique hf'
        have hpushed := Table.Denotes.pushed hr.names hpush
          (fun p hp => lookup_eq_none.mp hlook p hp) (y := i) hv
        refine ⟨{ s with inodeTable := t, filenameTable := tn }, ⟨.success, .nothing⟩, _, ?_,
          .linked rfl ho hok hfree
          (by rw [ho.2]; exact Option.some_ne_none o) rfl, hpushed, ?_, hr.handles⟩
        · show serviceLink s env args = _
          rw [serviceLink, hr.permissions hh ho, ok_bind]
          simp only [hden]
          show (createHardLink s env args.filename args.linkname >>= _) = _
          rw [hlink]
          rfl
        · exact hr.files.touched hh.agree.distinct ho.2 hf hup rfl (hold.changed _ _)
      · exact absurd rfl hne
    · refine served_refused hr (.taken rfl ho hden rfl hfree) ?_
      show serviceLink s env args = _
      rw [serviceLink, hr.permissions hh ho, ok_bind]
      simp only [hden]
      show (createHardLink s env args.filename args.linkname >>= _) = _
      obtain ⟨j, hj⟩ := Option.ne_none_iff_exists'.mp hfree
      rw [createHardLink, getIndex_eq hh.linked.names hh.agree.entries, hr.lookup_eq, ho.1, ok_bind]
      simp only [if_neg (Status.code_ne_neg_one _)]
      rw [checkTaken_total hh.linked.names hh.agree.entries, hr.lookup_eq, hj]
      rfl

/-- `OPEN` hands out a handle at the start of the file. -/
theorem served_open (hh : Healthy s) (hr : Represents s f) {args : OpenArgs}
    (hg : Admissible s (.open args)) : Served s f env (.open args) := by
  cases hmode : OpenMode.ofFlags args.flags with
  | none =>
      refine served_refused hr (.flags hmode) ?_
      obtain ⟨found, file, hp, -⟩ := hh.permissions_total args.filename
      show serviceOpen s env args = _
      have hst : openStatus found args file = .failure := by
        rw [openStatus, hmode]
      rw [serviceOpen, hp, ok_bind]
      simp only [hst, hmode]
      rfl
  | some mode =>
      have hw : access (.open args)
          = some ⟨mode, args.fileOwner, args.fileGroup, args.filename⟩ := by
        rw [access, hmode]
        rfl
      refine served_access hh hr hw ?_ ?_
      · intro hname hzero
        exact absurd hzero (hg.not_zero hr hw (fun _ h => by cases h) (fun _ h => by cases h) hname)
      intro i o ho hden
      have hok : Allowed (.open args) o := allowed_of hw hden
      obtain ⟨hnode, l, r, a, v, hf, hold⟩ := hr.at ho
      have hv : v.index = i := FoundInode.index hf
      have hst : openStatus .success args o.perms = .success := by
        rw [openStatus, hmode]
        cases mode with
        | readOnly => exact if_neg (Bool.eq_false_iff.mp hden)
        | writeOnly => exact if_neg (Bool.eq_false_iff.mp hden)
      have hopen : serviceOpen s env args = openInode s env args.filename mode >>= fun q =>
          .ok (q.2.2, ⟨q.1, .descriptor q.2.1⟩) := by
        rw [serviceOpen, hr.permissions hh ho, ok_bind]
        simp only [hst, hmode]
        rfl
      rcases find_cases hh.linked.descs hh.linked.headed
        (fun d => d.nodeIndex = i && d.mode = .writeOnly) with
        ⟨ld, rd, b, d, hfd, hfind⟩ | ⟨hnone, hfind⟩
      · obtain ⟨hnode', hwrite⟩ := (Bool.and_eq_true _ _).mp hfd.passes
        obtain ⟨k, hk, rfl⟩ := hr.handles.held _ hfd.mem
        refine served_refused hr (.writer ho hok hk (of_decide_eq_true hnode')
          (of_decide_eq_true hwrite)) ?_
        have hstart : openInode s env args.filename mode = .ok (.doubleWrite, 0, s) := by
          rw [openInode, getIndex_eq hh.linked.names hh.agree.entries, hr.lookup_eq, ho.1, ok_bind]
          refine (if_neg (Status.code_ne_neg_one _)).trans ?_
          rw [lookForOpenedWrite, hfind]
          rfl
        show serviceOpen s env args = _
        rw [hopen, hstart]
        rfl
      · obtain ⟨td, hadd⟩ := addOpenedDescriptor_total hh.linked.descs hh.linked.headed i 0 mode
        obtain ⟨-, b, hpush⟩ := addOpenedDescriptor_ok hh.linked.descs hadd
        obtain ⟨t, hput, hup⟩ := hh.linked.inodes.put_split hf.split
          { v with stat.stAtim := env.clock 0 }
        have hfree : f.handles (nextDesc s.descriptorTable) = none := by
          by_contra hne
          obtain ⟨q, hq, he⟩ := hr.handles.only _ hne
          exact hg.number args rfl q hq he
        have hwriter : ∀ fd h, f.handles fd = some h → h.file = i → h.mode ≠ .writeOnly := by
          intro fd h hk hfile hwrite
          obtain ⟨l, r, c, d, hfound, rfl⟩ := hr.handles.found hk
          have hpass := hnone _ hfound.mem
          rw [Bool.and_eq_false_iff] at hpass
          rcases hpass with h1 | h2
          · exact of_decide_eq_false h1 hfile
          · exact of_decide_eq_false h2 hwrite
        have hstart : openInode s env args.filename mode = .ok (.success,
            nextDesc s.descriptorTable, { s with inodeTable := t, descriptorTable := td }) := by
          rw [openInode, getIndex_eq hh.linked.names hh.agree.entries, hr.lookup_eq, ho.1, ok_bind]
          refine (if_neg (Status.code_ne_neg_one _)).trans ?_
          rw [lookForOpenedWrite, hfind]
          show s.inodeTable.find _ >>= _ = _
          rw [hh.linked.inodes.find_of_found hh.agree.inodes hf, ok_bind]
          show addOpenedDescriptor s.descriptorTable i mode 0 >>= _ = _
          rw [hadd, ok_bind]
          show s.inodeTable.get a >>= _ = _
          rw [hf.get, ok_bind, hput]
          rfl
        refine ⟨{ s with inodeTable := t, descriptorTable := td },
          ⟨.success, .descriptor (nextDesc s.descriptorTable)⟩, _, ?_,
          .opened rfl hmode ho hok hwriter hfree rfl, hr.names, ?_, ?_⟩
        · show serviceOpen s env args = _
          rw [hopen, hstart]
          rfl
        · exact hr.files.touched hh.agree.distinct ho.2 hf hup rfl (hold.accessed _)
        · exact hr.handles.pushed hpush (hg.number args rfl) rfl

end Handlers

end LibfsSpecs
