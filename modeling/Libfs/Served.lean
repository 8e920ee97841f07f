import Libfs.ServedAccess
import Libfs.ServedHandles

/-! # Soft links

    `SYMLINK` does what several requests do: it checks permissions, adds a
    file and a name, and copies the contents through a buffer. -/

namespace LibfsSpecs

open LibfsHeap LibfsStdio LibfsCommon LibfsInode LibfsOperations LibfsRun
open LibfsDirectory LibfsFileSystem

section Handlers

variable {s : State} {f : Fs} {env : Env}

/-- The blocks a file of `n` bytes takes when it is written from the start. -/
theorem newCount_empty {v : Inode} (h : v.dataBlocks = Vector.replicate fileMaxBlocks 0) {n : Nat}
    (hn : n ≤ fileEnd) : newCount v 0 n = totalBlocks n := by
  have hzero : v.dataBlocks[0 / dataBlockAllocSize]? = some 0 := by
    rw [h]
    rfl
  have hu : u32 (0 + n) = n := by
    rw [Nat.zero_add]
    refine u32_of_lt (Nat.lt_of_le_of_lt hn ?_)
    decide
  rw [newCount_outside (startsInside_hole hzero), rounds, hu]
  rfl

/-- The copy of a soft link gives the child the contents of its parent. -/
theorem copyContents_holds (hw : WellLinked s) (hs : Sound s.inodeTable s.blocks) {a b : Nat}
    {p v : Inode} {o c : File} (hp : (a, p) ∈ s.inodeTable.live) (hfits : SizeFits p)
    (hreadable : Readable p p.stat.stSize.toNat) (hold : HoldsFile s.blocks p o)
    {l r : List (Nat × Inode)} (hb : s.inodeTable.live = l ++ (b, v) :: r)
    (hempty : v.dataBlocks = Vector.replicate fileMaxBlocks 0) (hchild : HoldsFile s.blocks v c)
    (henough : totalBlocks p.stat.stSize.toNat ≤ (freeSlots s.blocks.dataBlockTable).length)
    (hfirst : p.stat.stSize = 0 ∨
      firstFree s.blocks.dataBlockTable = some (fileBlocks s.blocks)) :
    ∃ t v' bs, copyContents s a b = .ok (.success, { s with inodeTable := t, blocks := bs }) ∧
      s.inodeTable.Updated t l r b v v' ∧ v'.index = v.index ∧
      HoldsFile bs v' { c with content := o.content } ∧
      ∀ q ∈ s.inodeTable.live, q.1 ≠ b → ∀ o, HoldsFile s.blocks q.2 o → HoldsFile bs q.2 o := by
  have hsize : p.stat.stSize = o.content.length := congrArg Stat.stSize hold.stat
  have htoNat : p.stat.stSize.toNat = o.content.length := by
    rw [hsize]
    rfl
  have hmax : o.content.length ≤ fileEnd := Int.ofNat_le.mp (hsize ▸ hfits.2)
  have hread := hold.read hs hp hfits hreadable
    (show 0 + o.content.length ≤ o.content.length from (Nat.zero_add _).le)
    (List.length_replicate (a := (0 : UInt8)) (n := o.content.length)) p.stat
  rw [List.drop_zero, List.take_length] at hread
  have hv : (b, v) ∈ s.inodeTable.live := by
    rw [hb]
    exact List.mem_append_right _ (List.mem_cons_self ..)
  rw [htoNat] at henough
  have hcount := newCount_empty hempty hmax
  have hstep : InStep s.blocks v 0 o.content.length := by
    refine ⟨Or.inl rfl, ?_⟩
    rw [hcount]
    rcases hfirst with hzero | hfirst
    · rw [hsize, Int.natCast_eq_zero] at hzero
      rw [hzero]
      exact Or.inl rfl
    · exact Or.inr hfirst
  obtain ⟨v', bs, hwrite, hindex, hstat, hperms, hkind, hbytes, hothers⟩ :=
    hchild.write hs hv (show o.content.length = o.content.length from rfl)
      (by rw [Nat.zero_add]; exact hmax)
      (hcount.trans_le henough) hstep (Nat.zero_le _) v.stat
  obtain ⟨t, ht, hup⟩ := hw.inodes.put_split hb v'
  refine ⟨t, v', bs, ?_, hup, hindex,
    ⟨?_, hperms.trans hchild.perms, hkind.trans hchild.kind, ?_⟩, hothers t hup.replaced⟩
  · rw [copyContents_eq hp hsize hmax, hread, ok_bind]
    simp only [ne_eq, not_true_eq_false, if_false]
    rw [Table.get_ok.mpr hv, ok_bind, hwrite, ok_bind]
    show (s.inodeTable.put b v' >>= _) = _
    rw [ht]
    rfl
  · rw [hstat, hchild.stat, Nat.zero_add]
    rfl
  · intro pos hpos
    rw [hbytes pos (by rw [Nat.zero_add]; exact hpos), List.take_zero, List.nil_append]

/-- The tables of a soft link, read as a file system: a new file, an access to
    the old one, and the contents of the one in the other. -/
theorem symlink_files {t t₁ t₂ t₃ t₄ : Table Inode} {bs bs' : BlockStore}
    {objects : Nat → Option File} (h : FilesAre t bs objects) (hdist : (indices t).Nodup)
    {a c i j : Nat} {lp rp lc rc : List (Nat × Inode)} {vp vp' new new' new'' : Inode}
    {o o' e e' : File} (hi : t.Pushed t₁ c new) (hj : new.index = j)
    (hfresh : ∀ p ∈ t.live, p.2.index ≠ j) (hnew : HoldsFile bs new e)
    (hip : t₁.Updated t₂ lp rp a vp vp') (hp : vp.index = i) (hp' : vp'.index = i)
    (hpar : HoldsFile bs vp' o')
    (hic : t₂.Updated t₃ lc rc c new new') (hnew' : HoldsFile bs new' e) (hj' : new'.index = j)
    (hcopy : t₃.Updated t₄ lc rc c new' new'') (hj'' : new''.index = j)
    (hnew'' : HoldsFile bs' new'' e')
    (hothers : ∀ q ∈ t₃.live, q.1 ≠ c → ∀ o, HoldsFile bs q.2 o → HoldsFile bs' q.2 o)
    (ho : objects i = some o) :
    FilesAre t₄ bs' (Function.update (Function.update objects j (some e')) i (some o')) := by
  have hij : i ≠ j := by
    rintro rfl
    obtain ⟨p, hmem, he⟩ := h.only i (by rw [ho]; exact Option.some_ne_none o)
    exact hfresh p hmem he
  have hd₁ : (indices t₁).Nodup := by
    rw [indices_pushed hi]
    refine List.nodup_append.mpr ⟨hdist, List.nodup_singleton _, ?_⟩
    rintro x hx y hy rfl
    obtain ⟨p, hmem, rfl⟩ := List.mem_map.mp hx
    exact hfresh p hmem ((List.mem_singleton.mp hy).trans hj)
  have hd₂ : (indices t₂).Nodup := by
    rw [indices_updated hip (hp'.trans hp.symm)]
    exact hd₁
  have hd₃ : (indices t₃).Nodup := by
    rw [indices_updated hic (hj'.trans hj.symm)]
    exact hd₂
  have h₁ : FilesAre t₁ bs (Function.update objects new.index (some e)) :=
    h.pushed hi (fun p hmem => hj.symm ▸ hfresh p hmem) hnew
  have h₂ := h₁.replaced hd₁ hip.replaced (hp'.trans hp.symm) hpar fun _ _ _ _ hold => hold
  have h₃ := h₂.replaced hd₂ hic.replaced (hj'.trans hj.symm) hnew' fun _ _ _ _ hold => hold
  have h₄ := h₃.replaced hd₃ hcopy.replaced (hj''.trans hj'.symm) hnew'' hothers
  simp only [hj, hj', hp] at h₄
  rwa [Function.update_idem, Function.update_comm hij, Function.update_idem] at h₄

/-- `SYMLINK` makes a file with the content of another. -/
theorem served_symlink (hh : Healthy s) (hr : Represents s f) {args : SymlinkArgs}
    (hg : Admissible s (.symlink args)) : Served s f env (.symlink args) := by
  refine served_access hh hr (w := ⟨.readOnly, args.fileOwner, args.fileGroup, args.filename⟩) rfl
    ?_ ?_
  · intro hname _ file hp hden
    change getFileOwnerGroupPermissions s args.filename = _ at hp
    change readDenied args.fileOwner args.fileGroup file = false at hden
    have hmiss : lookup s.filenameTable args.filename = none := (hr.lookup_eq _).trans hname
    show serviceSymlink s env args = _
    rw [serviceSymlink, hp, ok_bind]
    simp only [hden]
    show (createSoftLink s env args.filename args.linkname args.fileOwner args.fileGroup args.mode
      >>= _) = _
    rw [createSoftLink_refused hh.linked hh.agree.entries (Or.inl hmiss), if_pos hmiss]
    rfl
  intro i o ho hden
  have hok : Allowed (.symlink args) o := allowed_of rfl hden
  change readDenied args.fileOwner args.fileGroup o.perms = false at hden
  have hserve : handle s env (.symlink args) = createSoftLink s env args.filename args.linkname
      args.fileOwner args.fileGroup args.mode >>= fun q => .ok (q.2, ⟨q.1, .nothing⟩) := by
    show serviceSymlink s env args = _
    rw [serviceSymlink, hr.permissions hh ho, ok_bind]
    simp only [hden]
    rfl
  have hknown : lookup s.filenameTable args.filename ≠ none := by
    rw [hr.lookup_eq, ho.1]
    exact Option.some_ne_none i
  by_cases hfree : f.dir.names args.linkname = none
  case neg =>
    refine served_refused hr (.taken rfl ho hden rfl hfree) ?_
    rw [hserve, createSoftLink_refused hh.linked hh.agree.entries
      (Or.inr (by rw [hr.lookup_eq]; exact hfree)), if_neg hknown]
    rfl
  have hlook : lookup s.filenameTable args.linkname = none := (hr.lookup_eq _).trans hfree
  obtain ⟨hnode, l, r, a, v, hf, hold⟩ := hr.at ho
  have hfn : FoundInode s.inodeTable (nodeOf s.filenameTable args.filename) l r a v := by
    rw [hnode]
    exact hf
  obtain ⟨hfresh, hstale⟩ := hg.index ⟨hknown, hlook, l, r, a, v, hfn, by
    rw [show OwnerGroupPerms.mk v.owner v.ownerGroup v.mode = o.perms from hold.perms]
    exact hden⟩
  obtain ⟨henough, hfirst⟩ := hg.copies args l r a v rfl hfn
  obtain ⟨st, s', e, hcall, hpush, -⟩ := @createSoftLink_total s env args.filename args.linkname
    args.fileOwner args.fileGroup args.mode hh.linked hh.sound hh.sizes hh.agree.entries
    hh.agree.inodes hknown hlook
  rcases createSoftLink_ok hh.linked ⟨(a, v), hfn.mem, FoundInode.index hfn⟩ hcall with
    ⟨-, -, t₁, c, tn, x, lp, rp, a', vp, t₂, lc, rc, b, vc, t₃, hi, hn, hp, hip, hc, hic, hcopy⟩ |
      ⟨-, hsame⟩
  case inr =>
    -- an entry was added: the name is free
    have hlength := hpush.length
    rw [hsame] at hlength
    exact absurd hlength (Nat.ne_of_lt (Nat.lt_succ_self _))
  obtain ⟨rfl, rfl, rfl, rfl⟩ := hp.unique (hfn.pushed hi)
  -- the child is the new inode
  obtain ⟨rfl, rfl⟩ : b = c ∧ vc = softLink (nextIndex s.inodeTable) args.fileOwner args.fileGroup
      args.mode (env.clock 0) := by
    rcases hip.mem.mp hc.mem with ⟨-, hmem⟩ | he
    · rcases hi.mem.mp hmem with hold | he
      · exact absurd (FoundInode.index hc) (hfresh _ hold)
      · cases he
        exact ⟨rfl, rfl⟩
    · cases he
      exact absurd (FoundInode.index hc) (hfresh _ hf.mem)
  have hne : a ≠ b := by
    have hlt : a < s.inodeTable.heap.length := Heap.live_lt hf.mem
    rw [hi.fresh]
    exact Nat.ne_of_lt hlt
  have hparent : (a, { v with stat.stAtim := env.clock 1 }) ∈ t₃.live :=
    hic.mem.mpr (Or.inl ⟨hne, hip.mem.mpr (Or.inr rfl)⟩)
  have hs₃ := ((hh.sound.pushed hi rfl).touched hip ⟨rfl, rfl, rfl⟩).touched hic ⟨rfl, rfl, rfl⟩
  have hw₃ : WellLinked { s with inodeTable := t₃, filenameTable := tn } :=
    ⟨hic.wf, hn.wf, hh.linked.descs, hh.linked.headed⟩
  have hempty : HoldsFile s.blocks (softLink (nextIndex s.inodeTable) args.fileOwner args.fileGroup
      args.mode (env.clock 0)) ⟨[], .fSymlink, env.clock 0, env.clock 0, env.clock 0, args.mode,
        args.fileOwner, args.fileGroup⟩ :=
    ⟨rfl, rfl, rfl, fun pos hpos => absurd hpos (Nat.not_lt_zero pos)⟩
  have hblocks : Readable v v.stat.stSize.toNat := hh.readable hf.mem
  have hreadable : Readable { v with stat.stAtim := env.clock 1 } v.stat.stSize.toNat := hblocks
  obtain ⟨t₄, v', bs, hdone, hup, hindex, hcopied, hothers⟩ := copyContents_holds hw₃ hs₃ hparent
    ((hh.sizes _ hf.mem).same ⟨rfl, rfl, rfl⟩) hreadable (hold.accessed (env.clock 1))
    hic.after rfl (c := ⟨[], .fSymlink, env.clock 0, env.clock 0, env.clock 0, args.mode, args.fileOwner,
      args.fileGroup⟩) ⟨rfl, rfl, rfl, hempty.bytes⟩ henough hfirst
  rw [hdone] at hcopy
  cases hcopy
  refine ⟨{ s with inodeTable := t₄, filenameTable := tn, blocks := bs }, ⟨.success, .nothing⟩, _,
    ?_, .symlinked rfl ho hok hfree (hr.unused hfresh hstale) rfl, ?_, ?_, hr.handles⟩
  · rw [hserve, hcall]
    rfl
  · exact hr.names.pushed hn (fun p hmem => lookup_eq_none.mp hlook p hmem) rfl
  · have hv : v.index = i := FoundInode.index hf
    have hij : i ≠ nextIndex s.inodeTable := fun he => hfresh _ hf.mem (hv.trans he)
    have hfiles := symlink_files hr.files hh.agree.distinct hi rfl hfresh hempty hip
      hv hv (hold.accessed (env.clock 1)) hic
      ⟨rfl, rfl, rfl, hempty.bytes⟩ rfl hup hindex hcopied hothers ho.2
    show FilesAre t₄ bs (Function.update (Function.update f.dir.objects _ _) i
      (Option.map _ (Function.update f.dir.objects _ _ i)))
    rw [Function.update_of_ne hij, ho.2]
    exact hfiles

end Handlers

end LibfsSpecs
