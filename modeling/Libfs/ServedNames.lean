import Libfs.Represents
import Libfs.IssuedNumbers

/-! # What the handlers answer about names

    On healthy tables that stand for a file system, an admissible request is
    handled to its end, is answered as the file system answers it, and leaves
    tables that stand for what the file system then is.  First the requests
    that look at nothing but names. -/

namespace LibfsSpecs

open LibfsHeap LibfsStdio LibfsCommon LibfsInode LibfsOperations LibfsRun
open LibfsDirectory LibfsFileSystem

/-- The service does with the request what the file system does with it. -/
def Served (s : State) (f : Fs) (env : Env) (r : Request) : Prop :=
  ∃ s' resp f', handle s env r = .ok (s', resp) ∧ FsStep f ⟨env, r, resp⟩ f' ∧ Represents s' f'

section Handlers

variable {s : State} {f : Fs} {env : Env}

/-- A refused request leaves everything as it is. -/
theorem served_refused {r : Request} {st : Status} (hr : Represents s f) (hwhy : Refuses f r st)
    (h : handle s env r = .ok (s, ⟨st, refusedPayload r⟩)) : Served s f env r :=
  ⟨s, _, f, h, .refused hwhy rfl, hr⟩

/-! ## Attributes of one file -/

section Attributes

variable {bs : BlockStore} {v : Inode} {o : File}

/-- The access time of an inode is that of its file. -/
theorem HoldsFile.accessed (h : HoldsFile bs v o) (now : Timespec) :
    HoldsFile bs { v with stat.stAtim := now } (o.accessed now) where
  stat := congrArg (fun st : Stat => { st with stAtim := now }) h.stat
  perms := h.perms
  kind := h.kind
  bytes := h.bytes

/-- The times `write_inode_fd` sets are those of the file. -/
theorem HoldsFile.modified (h : HoldsFile bs v o) (now : Timespec) :
    HoldsFile bs (Inode.written v now) (o.modified now) where
  stat := congrArg (fun st : Stat => { st with stAtim := now, stMtim := now }) h.stat
  perms := h.perms
  kind := h.kind
  bytes := h.bytes

/-- The times and the count that `LINK` and `UNLINK` set leave the file's other
    fields. -/
theorem HoldsFile.changed (h : HoldsFile bs v o) (now : Timespec) (n : Nat) :
    HoldsFile bs { v with refCount := n, stat.stAtim := now, stat.stCtim := now }
      (o.changed now) where
  stat := congrArg (fun st : Stat => { st with stAtim := now, stCtim := now }) h.stat
  perms := h.perms
  kind := h.kind
  bytes := h.bytes

end Attributes

/-- An inode that is assigned to keeps its index, and its file changes. -/
theorem FilesAre.modified {t t' : Table Inode} {bs bs' : BlockStore}
    {d : Directory Filename Nat File} (h : FilesAre t bs d.objects) (hdist : (indices t).Nodup)
    {a i : Nat} {v v' : Inode} {o : File} {g : File → File} (ho : d.objects i = some o)
    (hv : v.index = i) (hup : t.Replaced t' a v v') (hindex : v'.index = v.index)
    (hold : HoldsFile bs' v' (g o))
    (hothers : ∀ q ∈ t.live, q.1 ≠ a → ∀ o, HoldsFile bs q.2 o → HoldsFile bs' q.2 o) :
    FilesAre t' bs' (d.modify i g).objects := by
  have hm := h.replaced hdist hup hindex hold hothers
  show FilesAre t' bs' (Function.update d.objects i ((d.objects i).map g))
  rw [ho, ← hv]
  exact hm

/-- Only its attributes change. -/
theorem FilesAre.touched {t t' : Table Inode} {bs : BlockStore} {d : Directory Filename Nat File}
    (h : FilesAre t bs d.objects) (hdist : (indices t).Nodup) {l r : List (Nat × Inode)}
    {a i : Nat} {v v' : Inode} {o : File} {g : File → File} (ho : d.objects i = some o)
    (hf : FoundInode t i l r a v) (hup : t.Updated t' l r a v v') (hindex : v'.index = v.index)
    (hold : HoldsFile bs v' (g o)) : FilesAre t' bs (d.modify i g).objects :=
  h.modified hdist ho (FoundInode.index hf) hup.replaced hindex hold fun _ _ _ _ hold => hold

/-- The descriptor of a handle is assigned another offset. -/
theorem HandlesAre.moved {t t' : Table Descriptor} {handles : Nat → Option Handle}
    (h : HandlesAre t handles) (hdist : (descNumbers t).Nodup) {b fd offset : Nat} {d : Descriptor}
    (hd : d.desc = fd) (hup : t.Replaced t' b d { d with offset := offset }) :
    HandlesAre t' (Function.update handles fd
      (some { Descriptor.handle d with offset := offset })) := by
  rw [← hd]
  exact Table.Denotes.replaced h hdist hup rfl rfl fun _ _ _ _ hold => hold

/-- An index that no inode and no descriptor carries. -/
theorem Represents.unused (hr : Represents s f) {i : Nat}
    (hinodes : ∀ p ∈ s.inodeTable.live, p.2.index ≠ i)
    (hdescs : ∀ q ∈ s.descriptorTable.live, q.2.nodeIndex ≠ i) : f.Unused i := by
  constructor
  · by_contra hused
    obtain ⟨p, hp, he⟩ := hr.files.only i hused
    exact hinodes p hp he
  · intro fd h hk he
    obtain ⟨l, r, b, d, hfound, rfl⟩ := hr.handles.found hk
    exact hdescs _ hfound.mem he

/-! ## Names -/

/-- `CREATE` makes an empty file under a free name. -/
theorem served_create (hh : Healthy s) (hr : Represents s f) {args : CreateArgs}
    (hg : Admissible s (.create args)) : Served s f env (.create args) := by
  have htaken := @checkTaken_total s.filenameTable args.filename hh.linked.names hh.agree.entries
  rw [hr.lookup_eq] at htaken
  by_cases hfree : f.dir.names args.filename = none
  · have hlook : lookup s.filenameTable args.filename = none := (hr.lookup_eq _).trans hfree
    obtain ⟨hnew, hstale⟩ := hg.index hlook
    obtain ⟨a, t, hadd, hpush⟩ := addInode_total hh.linked.inodes hh.agree.inodes
      FileType.fRegular.code args.fileOwner args.fileGroup 1 args.accessMode 0 (env.clock 0)
      (env.clock 0) (env.clock 0)
    obtain ⟨b, tn, hname, hpushn⟩ := addFilename_total hh.linked.names hh.agree.entries hlook
      (nextIndex s.inodeTable)
    refine ⟨{ s with inodeTable := t, filenameTable := tn }, _, _, ?_,
      .created rfl hfree (hr.unused hnew hstale) rfl, ?_, ?_, hr.handles⟩
    · show serviceCreate s env args = _
      rw [serviceCreate, htaken, ok_bind, hfree]
      show (addInode _ _ _ _ _ _ _ _ _ _ >>= _) = _
      rw [hadd, ok_bind]
      show (addFilenameToTable _ _ _ >>= _) = _
      rw [hname]
      rfl
    · exact hr.names.pushed hpushn (fun p hp => lookup_eq_none.mp hlook p hp) rfl
    · exact hr.files.pushed hpush hnew ⟨rfl, rfl, rfl, fun pos hpos => absurd hpos (Nat.not_lt_zero pos)⟩
  · refine served_refused hr (.created hfree) ?_
    show serviceCreate s env args = _
    obtain ⟨i, hi⟩ := Option.ne_none_iff_exists'.mp hfree
    rw [serviceCreate, htaken, hi]
    rfl

/-- `RENAME` gives a name that exists a free one in its place. -/
theorem served_rename (hh : Healthy s) (hr : Represents s f) {args : RenameArgs} :
    Served s f env (.rename args) := by
  have htaken := @checkTaken_total s.filenameTable args.newname hh.linked.names hh.agree.entries
  rw [hr.lookup_eq] at htaken
  by_cases hfree : f.dir.names args.newname = none
  · rw [hfree] at htaken
    by_cases hold : f.dir.names args.oldname = none
    · refine served_refused hr (.renamed (Or.inr hold)) ?_
      show serviceRename s args = _
      have hfind : s.filenameTable.find (fun x => x.filename = args.oldname) = .ok none := by
        rw [hh.linked.names.find_eq hh.agree.entries, List.find?_eq_none.mpr]
        · rfl
        · exact fun p hp he => hr.names.absent hold p hp (of_decide_eq_true he)
      rw [serviceRename, renameFile, htaken, ok_bind, if_neg (by decide), hfind]
      rfl
    · obtain ⟨i, hi⟩ := Option.ne_none_iff_exists'.mp hold
      obtain ⟨l, r, b, x, hx, hxi⟩ := hr.names.found hi
      have hname : x.filename = args.oldname := of_decide_eq_true hx.passes
      obtain ⟨tn, hput, hup⟩ := hh.linked.names.put_split hx.split { x with filename := args.newname }
      refine ⟨{ s with filenameTable := tn }, ⟨.success, .nothing⟩, _, ?_,
        .renamed rfl hold hfree rfl, ?_, hr.files, hr.handles⟩
      · show serviceRename s args = _
        rw [serviceRename, renameFile, htaken, ok_bind, if_neg (by decide),
          hh.linked.names.find_of_found hh.agree.entries hx, ok_bind]
        show ((s.filenameTable.get b >>= _) >>= _) = _
        rw [hx.get, ok_bind, hput]
        rfl
      · have hm := Table.Denotes.rekeyed (R := fun x i => x.nodeIndex = i) hr.names hh.agree.unique
          hup.replaced hfree hxi
        rw [hname] at hm
        show NamesAre tn (Function.update (Function.update f.dir.names args.newname
          (f.dir.names args.oldname)) args.oldname none)
        rw [hi]
        exact hm
  · refine served_refused hr (.renamed (Or.inl hfree)) ?_
    show serviceRename s args = _
    obtain ⟨i, hi⟩ := Option.ne_none_iff_exists'.mp hfree
    rw [serviceRename, renameFile, htaken, hi]
    rfl

/-- Freeing the blocks of an inode stays inside the table. -/
theorem freeBlocks_total (blocks : List Nat) (h : ∀ b ∈ blocks, b ≤ numOfDataBlocks) :
    ∀ tbl, ∃ tbl', freeBlocks tbl blocks = .ok tbl' := by
  induction blocks with
  | nil => exact fun tbl => ⟨tbl, rfl⟩
  | cons b blocks ih =>
      intro tbl
      rw [freeBlocks]
      by_cases hb : b > 0
      · have hle := h b (List.mem_cons_self ..)
        rw [if_pos hb, if_pos (by omega)]
        exact ih (fun c hc => h c (List.mem_cons_of_mem b hc)) _
      · rw [if_neg hb]
        exact ⟨tbl, rfl⟩

/-- The blocks of an inode can be given back. -/
theorem BlocksInside.freed {bs : BlockStore} {v : Inode} (h : BlocksInside bs v) :
    ∃ tbl, freeBlocks bs.dataBlockTable v.dataBlocks.toList = .ok tbl := by
  refine freeBlocks_total _ (fun b hb => ?_) _
  cases b with
  | zero => exact Nat.zero_le _
  | succ k =>
      obtain ⟨i, hi, hk⟩ := List.mem_iff_getElem.mp hb
      refine (h i k ?_).1
      rw [← Vector.getElem?_toList, ← hk]
      exact List.getElem?_eq_getElem hi

/-- An unlink of the last name: the inode and the entry are unhooked and the
    blocks are freed. -/
theorem unlinkInode_last (hh : Healthy s) {name : Filename} {ln rn : List (Nat × FilenameInode)}
    {b : Nat} {x : FilenameInode} {l r : List (Nat × Inode)} {a : Nat} {v : Inode}
    (hx : s.filenameTable.Found (fun e => e.filename = name) ln rn b x)
    (hf : FoundInode s.inodeTable x.nodeIndex l r a v)
    (hcount : (Inode.unlinked v (env.clock 0)).refCount = 0) {t t' : Table Inode}
    (ht : s.inodeTable.put a (Inode.unlinked v (env.clock 0)) = .ok t)
    (ht' : t.detach a = .ok t') {tn : Table FilenameInode}
    (htn : s.filenameTable.detach b = .ok tn) {tbl : Vector DataBlock numOfDataBlocks}
    (htbl : freeBlocks s.blocks.dataBlockTable v.dataBlocks.toList = .ok tbl) :
    unlinkInode s env name = .ok (.success, { s with
      inodeTable := t'
      filenameTable := tn
      blocks := { s.blocks with dataBlockTable := tbl } }) := by
  have hl : lookup s.filenameTable name = some x.nodeIndex := lookup_of_found hx
  have hremove : removeFilenameFromTable s.filenameTable name = .ok (.success, tn) := by
    rw [removeFilenameFromTable, hh.linked.names.find_of_found hh.agree.entries hx, ok_bind]
    show (s.filenameTable.detach b >>= _) = _
    rw [htn]
    rfl
  rw [unlinkInode, getIndex_eq hh.linked.names hh.agree.entries, hl, ok_bind]
  show (s.inodeTable.find _ >>= _) = _
  rw [hh.linked.inodes.find_of_found hh.agree.inodes hf, ok_bind]
  show (s.inodeTable.get a >>= _) = _
  rw [hf.get, ok_bind]
  show (s.inodeTable.put a (Inode.unlinked v (env.clock 0)) >>= _) = _
  rw [ht, ok_bind]
  show (if (Inode.unlinked v (env.clock 0)).refCount = 0 then _ else _) = _
  rw [if_pos hcount]
  show (freeBlocks s.blocks.dataBlockTable v.dataBlocks.toList >>= _) = _
  rw [htbl, ok_bind, ht', ok_bind, hremove]
  rfl

/-- What is left of the count says whether another name leads to the inode. -/
theorem Healthy.other_name (hh : Healthy s) (hr : Represents s f)
    {ln rn : List (Nat × FilenameInode)} {b : Nat} {x : FilenameInode} {tn : Table FilenameInode}
    (hn : s.filenameTable.Detached tn ln rn b x) {a : Nat} {v : Inode}
    (hv : (a, v) ∈ s.inodeTable.live) (hx : x.nodeIndex = v.index) :
    u32 (v.refCount + 4294967295) = 0 ↔
      ∀ m, m ≠ x.filename → f.dir.names m ≠ some v.index := by
  have hnames := Table.Denotes.dropped hr.names hh.agree.unique
    (by rw [hn.before]; exact List.mem_append_right _ (List.mem_cons_self ..)) fun _ => hn.mem
  have hone := count_detached hn v.index
  rw [if_pos hx] at hone
  have hcount := hh.agree.refCount_unlinked hv
  have hleft : u32 (v.refCount + 4294967295) = (nodes tn).count v.index :=
    Nat.succ.inj (hcount.trans hone)
  have hzero : u32 (v.refCount + 4294967295) = 0 ↔ v.index ∉ nodes tn := by
    rw [hleft, List.count_eq_zero]
  rw [hzero]
  constructor
  · intro hnone m hm hi
    obtain ⟨l, r, c, y, hy, hyi⟩ := hnames.found
      (show Function.update f.dir.names x.filename none m = some v.index by
        rw [Function.update_of_ne hm, hi])
    exact hnone (List.mem_map.mpr ⟨(c, y), hy.mem, hyi⟩)
  · intro hnone hmem
    obtain ⟨p, hp, hpi⟩ := List.mem_map.mp hmem
    obtain ⟨i, hi, hheld⟩ := hnames.held p hp
    obtain rfl : i = v.index := hheld.symm.trans hpi
    by_cases hm : p.2.filename = x.filename
    · rw [hm, Function.update_self] at hi
      cases hi
    · rw [Function.update_of_ne hm] at hi
      exact hnone _ hm hi

/-- `UNLINK` takes a name away, and the file with its last name. -/
theorem served_unlink (hh : Healthy s) (hr : Represents s f) {args : UnlinkArgs} :
    Served s f env (.unlink args) := by
  by_cases hmiss : f.dir.names args.name = none
  · refine served_refused hr (.unlinked hmiss) ?_
    show serviceUnlink s env args = _
    rw [serviceUnlink, unlinkInode_missing hh.linked hh.agree.entries ((hr.lookup_eq _).trans hmiss)]
    rfl
  obtain ⟨i, o, hi, ho⟩ := Fs.at_of_name hmiss
  obtain ⟨ln, rn, b, x, hx, hxi⟩ := hr.names.found hi
  obtain ⟨l, r, a, v, hf, hold⟩ := hr.files.found ho
  have hv : v.index = i := FoundInode.index hf
  have hname : x.filename = args.name := of_decide_eq_true hx.passes
  have hfx : FoundInode s.inodeTable x.nodeIndex l r a v := by
    rw [hxi]
    exact hf
  obtain ⟨tn, htn, hn⟩ := hh.linked.names.detach_split hx.split
  obtain ⟨t, ht, hup⟩ := hh.linked.inodes.put_split hf.split (Inode.unlinked v (env.clock 0))
  have hnames := Table.Denotes.dropped hr.names hh.agree.unique hx.mem fun _ => hn.mem
  rw [hname] at hnames
  have hlast := hh.other_name hr hn hf.mem (hxi.trans hv.symm)
  rw [hname, hv] at hlast
  have hfiles := hr.files.touched (g := File.changed (env.clock 0)) hh.agree.distinct ho hf hup rfl
    (hold.changed _ _)
  by_cases hcount : (Inode.unlinked v (env.clock 0)).refCount = 0
  · obtain ⟨t', ht', hdet⟩ := hup.wf.detach_split hup.after
    obtain ⟨tbl, htbl⟩ := (hh.sound.blocksInside hf.mem).freed
    refine ⟨{ s with
        inodeTable := t'
        filenameTable := tn
        blocks := { s.blocks with dataBlockTable := tbl } }, ⟨.success, .nothing⟩, _, ?_,
      .unlinked rfl ⟨hi, ho⟩ rfl, hnames, ?_, hr.handles⟩
    · show serviceUnlink s env args = _
      rw [serviceUnlink, unlinkInode_last hh hx hfx hcount ht ht' htn htbl]
      rfl
    · have hobjects := Directory.objects_remove_last hi fun m hm => by
        by_contra hne
        exact hlast.mp hcount m hne hm
      have hgone : ((f.dir.remove args.name).modify i (File.changed (env.clock 0))).objects
          = Function.update f.dir.objects i none := by
        rw [Directory.modify_absent, hobjects]
        rw [hobjects, Function.update_self]
      have hdist : (indices t).Nodup := by
        rw [indices_updated hup rfl]
        exact hh.agree.distinct
      have hdrop := Table.Denotes.dropped hfiles hdist
        (by rw [hup.after]; exact List.mem_append_right _ (List.mem_cons_self ..)) fun _ => hdet.mem
      show FilesAre t' _ ((f.dir.remove args.name).modify i (File.changed (env.clock 0))).objects
      rw [hgone]
      have hsame : Function.update (f.dir.modify i (File.changed (env.clock 0))).objects
          (Inode.unlinked v (env.clock 0)).index none = Function.update f.dir.objects i none := by
        show Function.update (Function.update f.dir.objects i _) v.index none = _
        rw [hv, Function.update_idem]
      rw [hsame] at hdrop
      exact hdrop.mono fun p _ o hold => ⟨hold.stat, hold.perms, hold.kind, hold.bytes⟩
  · refine ⟨{ s with inodeTable := t, filenameTable := tn }, ⟨.success, .nothing⟩, _, ?_,
      .unlinked rfl ⟨hi, ho⟩ rfl, hnames, ?_, hr.handles⟩
    · show serviceUnlink s env args = _
      rw [serviceUnlink, unlinkInode_kept hh.linked hh.agree.entries hh.agree.inodes hx hfx hcount ht
        htn]
      rfl
    · have hobjects : (f.dir.remove args.name).objects = f.dir.objects := by
        refine Directory.objects_remove_kept hi ?_
        by_contra hnone
        exact hcount (hlast.mpr fun m hm hmi => hnone ⟨m, hm, hmi⟩)
      show FilesAre t s.blocks ((f.dir.remove args.name).modify i _).objects
      rw [Directory.objects_modify_eq hobjects]
      exact hfiles

end Handlers

end LibfsSpecs
