import Libfs.ServedNames

/-! # What the handlers answer through a handle

    A descriptor number leads to a handle or to none, and the handle to a file
    or, when that was unlinked, to none. -/

namespace LibfsSpecs

open LibfsHeap LibfsStdio LibfsCommon LibfsInode LibfsOperations LibfsRun
open LibfsDirectory LibfsFileSystem

section Handlers

variable {s : State} {f : Fs} {env : Env}

/-- A request through a number without handle finds no descriptor. -/
theorem find_closed (hh : Healthy s) (hr : Represents s f) {fd : Nat} (h : f.handles fd = none) :
    s.descriptorTable.find (fun d => d.desc = fd) = .ok none := by
  rw [hh.linked.descs.find_eq hh.linked.headed, List.find?_eq_none.mpr]
  · rfl
  · exact fun p hp he => hr.handles.absent h p hp (of_decide_eq_true he)

/-- A descriptor whose file is gone finds no inode. -/
theorem find_gone (hh : Healthy s) (hr : Represents s f) {i : Nat} (h : f.dir.objects i = none) :
    s.inodeTable.find (fun v => v.index = i) = .ok none := by
  rw [hh.linked.inodes.find_eq hh.agree.inodes, List.find?_eq_none.mpr]
  · rfl
  · exact fun p hp he => hr.files.absent h p hp (of_decide_eq_true he)

/-- `CLOSE` takes the handle back. -/
theorem served_close (hh : Healthy s) (hr : Represents s f) {args : CloseArgs} :
    Served s f env (.close args) := by
  cases hk : f.handles args.fd with
  | none =>
      refine served_refused hr (.closed rfl hk) ?_
      show serviceClose s args = _
      rw [serviceClose, closeInode, removeDescriptor, find_closed hh hr hk]
      rfl
  | some h =>
      obtain ⟨l, r, b, d, hfd, rfl⟩ := hr.handles.found hk
      obtain ⟨td, hrem, hremoved⟩ := hh.linked.descs.remove_split hh.linked.headed hfd.split
      refine ⟨{ s with descriptorTable := td }, ⟨.success, .nothing⟩, _, ?_,
        .closed rfl (by rw [hk]; exact Option.some_ne_none _) rfl, hr.names, hr.files, ?_⟩
      · show serviceClose s args = _
        rw [serviceClose, closeInode, removeDescriptor,
          hh.linked.descs.find_of_found hh.linked.headed hfd, ok_bind]
        show (((s.descriptorTable.remove b >>= _) >>= _) >>= _) = _
        rw [hrem]
        rfl
      · have hm := Table.Denotes.dropped hr.handles hh.numbers hfd.mem fun _ => hremoved.mem
        rw [FoundDesc.desc hfd] at hm
        exact hm

/-- `SEEK` sets the offset of a handle up to the end of its file. -/
theorem served_seek (hh : Healthy s) (hr : Represents s f) {args : SeekArgs} :
    Served s f env (.seek args) := by
  cases hk : f.handles args.fd with
  | none =>
      refine served_refused hr (.closed rfl hk) ?_
      show serviceSeek s args = _
      rw [serviceSeek, seekInodeFd, find_closed hh hr hk]
      rfl
  | some h =>
      obtain ⟨ld, rd, b, d, hfd, rfl⟩ := hr.handles.found hk
      have hfind := hh.linked.descs.find_of_found hh.linked.headed hfd
      cases ho : f.dir.objects d.nodeIndex with
      | none =>
          refine served_refused hr (.gone rfl (fun _ h => by cases h) hk ho) ?_
          show serviceSeek s args = _
          rw [serviceSeek, seekInodeFd, hfind, ok_bind]
          show ((s.descriptorTable.get b >>= _) >>= _) = _
          rw [hfd.get, ok_bind, find_gone hh hr ho]
          rfl
      | some o =>
          obtain ⟨l, r, a, v, hf, hold⟩ := hr.files.found ho
          have hsize : v.stat.stSize = o.content.length := congrArg Stat.stSize hold.stat
          by_cases hle : args.offset ≤ o.content.length
          · have hbound : (args.offset : Int) ≤ v.stat.stSize := by
              rw [hsize]
              exact Int.ofNat_le.mpr hle
            obtain ⟨td, hup, hseek⟩ := seekInodeFd_eq hh.linked hfd hf hh.agree.inodes hbound
            refine ⟨{ s with descriptorTable := td }, ⟨.success, .nothing⟩, _, ?_,
              .sought rfl ⟨hk, ho⟩ hle rfl, hr.names, hr.files, 
                hr.handles.moved hh.numbers (FoundDesc.desc hfd) hup.replaced⟩
            show serviceSeek s args = _
            rw [serviceSeek, hseek]
            rfl
          · refine served_refused hr (.beyond ⟨hk, ho⟩ (Nat.lt_of_not_le hle)) ?_
            show serviceSeek s args = _
            rw [serviceSeek, seekInodeFd, hfind, ok_bind]
            show ((s.descriptorTable.get b >>= _) >>= _) = _
            rw [hfd.get, ok_bind, hh.linked.inodes.find_of_found hh.agree.inodes hf, ok_bind]
            show ((s.inodeTable.get a >>= _) >>= _) = _
            rw [hf.get, ok_bind, hsize, if_pos (Int.ofNat_lt.mpr (Nat.lt_of_not_le hle))]
            rfl

/-! ## Contents -/

section Contents

variable {t t' : Table Inode} {bs : BlockStore} {a : Nat} {v : Inode} {o : File} {offset size : Nat}
  {data : Bytes}

/-- A write in step puts the data behind the bytes in front of it; the files
    of the other inodes are as they were. -/
theorem HoldsFile.write (hs : Sound t bs) (hv : (a, v) ∈ t.live) (hold : HoldsFile bs v o)
    (hdata : data.length = size) (hfit : offset + size ≤ fileEnd)
    (henough : newCount v offset size ≤ (freeSlots bs.dataBlockTable).length)
    (hstep : InStep bs v offset size) (hle : offset ≤ o.content.length) (st : Stat) :
    ∃ v' bs', writeInode bs { v with stat := st } data offset size
        = .ok (.success, v', offset + size, bs') ∧ v'.index = v.index ∧
      v'.stat = { st with stSize := (offset + size : Nat) } ∧
      Inode.attributes v' = Inode.attributes v ∧ v'.type = v.type ∧
      (∀ pos, pos < offset + size → fileByte (BlockStore.file bs') v'.dataBlocks pos
        = (o.content.take offset ++ data)[pos]?) ∧
      ∀ t', t.Replaced t' a v v' → ∀ q ∈ t.live, q.1 ≠ a → ∀ o,
        HoldsFile bs q.2 o → HoldsFile bs' q.2 o := by
  have hin := hs.blocksInside hv
  have hu : u32 (offset + size) = offset + size := by
    refine u32_of_lt (Nat.lt_of_le_of_lt hfit ?_)
    decide
  have hmax : u32 (offset + size) ≤ fileEnd := hu.symm ▸ hfit
  have hwrite := writeInode_after (v := { v with stat := st }) (hin.congr rfl) hdata.ge hmax
  rw [if_pos (show newCount { v with stat := st } offset size ≤ _ from henough), hu] at hwrite
  obtain ⟨_, _, hwrote, -⟩ := wrote_of_writeInode hdata.ge hwrite (hin.congr rfl)
  refine ⟨_, _, hwrite, rfl, rfl, rfl, rfl, ?_, ?_⟩
  · intro pos hpos
    show byteAfter bs v data offset size pos = _
    by_cases hlt : pos < offset
    · have hoff : offset < fileEnd ∨ offset % dataBlockAllocSize = 0 := by
        simp only [fileEnd, dataBlockAllocSize, fileMaxBlocks] at hfit ⊢
        omega
      rw [byteAfter_kept hs hv hoff hlt hstep.1, hold.bytes pos (Nat.lt_of_lt_of_le hlt hle),
        List.getElem?_append_left (by rw [List.length_take]; omega), List.getElem?_take_of_lt hlt]
    · obtain ⟨j, rfl⟩ := Nat.exists_eq_add_of_le (Nat.le_of_not_lt hlt)
      have hlen : (o.content.take offset).length = offset := by
        rw [List.length_take]
        omega
      rw [byteAfter_inStep hs hv hdata hfit henough hstep (by omega),
        List.getElem?_append_right (by omega), hlen, Nat.add_sub_cancel_left]
  · intro t' hup q hq hne o' hold'
    refine ⟨hold'.stat, hold'.perms, hold'.kind, fun pos hpos => ?_⟩
    rw [bytes_of_others hs hup hwrote rfl hq hne]
    exact hold'.bytes pos hpos

/-- A read inside the file delivers its bytes. -/
theorem HoldsFile.read (hs : Sound t bs) (hv : (a, v) ∈ t.live) (hold : HoldsFile bs v o)
    (hfits : SizeFits v) (hreadable : Readable v v.stat.stSize.toNat)
    (hle : offset + size ≤ o.content.length) {buf : Bytes} (hbuf : buf.length = size) (st : Stat) :
    readInode bs { v with stat := st } buf offset size
      = .ok (.success, offset + size, (o.content.drop offset).take size) := by
  have hin : BlocksInside bs { v with stat := st } := (hs.blocksInside hv).congr rfl
  have hsize : v.stat.stSize = o.content.length := congrArg Stat.stSize hold.stat
  have hmax : offset + size ≤ fileEnd :=
    Nat.le_trans hle (Int.ofNat_le.mp (hsize ▸ hfits.2))
  obtain ⟨offset', buf', hread⟩ := readInode_total hin hbuf.ge hmax fun pos _ hhi =>
    hreadable pos (by omega)
  obtain ⟨rfl, hlen, hbytes⟩ := readInode_ok hread hin
  have hgot : buf' = (o.content.drop offset).take size := by
    apply List.ext_getElem?
    intro j
    rw [hbytes j]
    by_cases hj : j < size
    · rw [if_pos hj, List.getElem?_take_of_lt hj, List.getElem?_drop]
      exact hold.bytes _ (by omega)
    · rw [if_neg hj, List.getElem?_eq_none (by omega), List.getElem?_eq_none]
      rw [List.length_take]
      omega
  rw [hread, hgot]

end Contents

/-- The bytes of a file are all in its blocks. -/
theorem Healthy.readable (hh : Healthy s) {a : Nat} {v : Inode} (hv : (a, v) ∈ s.inodeTable.live) :
    Readable v v.stat.stSize.toNat := by
  obtain ⟨n, hpacked, -⟩ := hh.noHoles _ hv
  exact hpacked.readable

/-- `READ` delivers the bytes at the offset of the handle and moves it. -/
theorem served_read (hh : Healthy s) (hr : Represents s f) {args : ReadArgs}
    (hg : Admissible s (.read args)) : Served s f env (.read args) := by
  cases hk : f.handles args.fd with
  | none =>
      refine served_refused hr (.closed rfl hk) ?_
      show serviceRead s env args = _
      rw [serviceRead, readInodeFd, find_closed hh hr hk]
      rfl
  | some h =>
      obtain ⟨ld, rd, b, d, hfd, rfl⟩ := hr.handles.found hk
      cases ho : f.dir.objects d.nodeIndex with
      | none =>
          refine served_refused hr (.gone rfl (fun _ h => by cases h) hk ho) ?_
          show serviceRead s env args = _
          rw [serviceRead, readInodeFd, hh.linked.descs.find_of_found hh.linked.headed hfd, ok_bind]
          show ((s.descriptorTable.get b >>= _) >>= _) = _
          rw [hfd.get, ok_bind, find_gone hh hr ho]
          rfl
      | some o =>
          obtain ⟨l, r, a, v, hf, hold⟩ := hr.files.found ho
          have hreach := Reaches.of_found hh.linked hh.agree.inodes hfd hf
          have hsize : v.stat.stSize = o.content.length := congrArg Stat.stSize hold.stat
          have hle : d.offset + args.size ≤ o.content.length :=
            Int.ofNat_le.mp (hsize ▸ hg.reads args b d a v rfl hreach)
          have hread := hold.read hh.sound hf.mem (hh.sizes _ hf.mem) (hh.readable hf.mem) hle
            (env.malloc_length args.size) { v.stat with stAtim := env.clock 0 }
          obtain ⟨t, td, ld', rd', l', r', hcall, hup, hupd⟩ := hreach.read_returns hh.linked hread
          refine ⟨{ s with inodeTable := t, descriptorTable := td },
            ⟨.success, .bytes ((o.content.drop d.offset).take args.size)⟩, _, ?_,
            .read rfl ⟨hk, ho⟩ hle rfl, hr.names, ?_, ?_⟩
          · show serviceRead s env args = _
            rw [serviceRead, hcall]
            rfl
          · exact hr.files.modified hh.agree.distinct ho (FoundInode.index hf) hup.replaced rfl
              (hold.accessed _) fun _ _ _ _ hold => hold
          · exact hr.handles.moved hh.numbers (FoundDesc.desc hfd) hupd.replaced

/-- A call that comes to `write_inode` assigns to the inode and to the
    descriptor. -/
theorem write_assigns (hh : Healthy s) {fd size b a offset : Nat} {d : Descriptor} {v v' : Inode}
    {ld rd : List (Nat × Descriptor)} {l r : List (Nat × Inode)} {data : Bytes} {st : Status}
    {bs : BlockStore} (hfd : FoundDesc s.descriptorTable fd ld rd b d)
    (hf : FoundInode s.inodeTable d.nodeIndex l r a v) (hmode : d.mode = .writeOnly)
    (hwrite : writeInode s.blocks (Inode.written v (env.clock 0)) data d.offset size
      = .ok (st, v', offset, bs)) :
    ∃ t td, writeInodeFd s env fd data size = .ok (if st = .success then .success else .failure,
        { s with inodeTable := t, descriptorTable := td, blocks := bs }) ∧
      s.inodeTable.Updated t l r a v v' ∧
      s.descriptorTable.Updated td ld rd b d { d with offset := offset } := by
  obtain ⟨t, ht, hup⟩ := hh.linked.inodes.put_split hf.split v'
  obtain ⟨td, htd, hupd⟩ := hh.linked.descs.put_split hfd.split { d with offset := offset }
  refine ⟨t, td, ?_, hup, hupd⟩
  rw [(Reaches.of_found hh.linked hh.agree.inodes hfd hf).write_eq hmode, hwrite, ok_bind]
  show (s.inodeTable.put a v' >>= _) = _
  rw [ht, ok_bind]
  show (s.descriptorTable.put b { d with offset := offset } >>= _) = _
  rw [htd]
  rfl

/-- `WRITE` replaces what follows the offset of the handle and moves it. -/
theorem served_write (hh : Healthy s) (hr : Represents s f) {args : WriteArgs}
    (hoff : ∀ h o, f.Through args.fd h o → h.mode = .writeOnly → h.offset ≤ o.content.length)
    (hg : Admissible s (.write args)) : Served s f env (.write args) := by
  obtain ⟨hsize, hwrites⟩ := hg.writes args rfl
  obtain ⟨data, hdata⟩ : ∃ data, slice args.data 0 args.size = .ok data :=
    ⟨_, slice_of_le (by omega)⟩
  have hlen := slice_all hdata
  have hserve : handle s env (.write args) = writeInodeFd s env args.fd data args.size >>= fun q =>
      .ok (q.2, ⟨q.1, .nothing⟩) := by
    show serviceWrite s env args = _
    rw [serviceWrite, hdata, ok_bind]
  cases hk : f.handles args.fd with
  | none =>
      refine served_refused hr (.closed rfl hk) ?_
      rw [hserve, writeInodeFd, find_closed hh hr hk]
      rfl
  | some h =>
      obtain ⟨ld, rd, b, d, hfd, rfl⟩ := hr.handles.found hk
      have hfind := hh.linked.descs.find_of_found hh.linked.headed hfd
      cases hmode : d.mode with
      | readOnly =>
          refine served_refused hr (.reader hk hmode) ?_
          rw [hserve, writeInodeFd, hfind, ok_bind]
          show ((s.descriptorTable.get b >>= _) >>= _) = _
          rw [hfd.get, ok_bind, if_pos hmode]
          rfl
      | writeOnly =>
          have hwriter : ¬ d.mode = .readOnly := by
            rw [hmode]
            decide
          cases ho : f.dir.objects d.nodeIndex with
          | none =>
              refine served_refused hr (.gone rfl (fun _ h => by cases h) hk ho) ?_
              rw [hserve, writeInodeFd, hfind, ok_bind]
              show ((s.descriptorTable.get b >>= _) >>= _) = _
              rw [hfd.get, ok_bind, if_neg hwriter, find_gone hh hr ho]
              rfl
          | some o =>
              obtain ⟨l, r, a, v, hf, hold⟩ := hr.files.found ho
              have hv : v.index = d.nodeIndex := FoundInode.index hf
              have hreach := Reaches.of_found hh.linked hh.agree.inodes hfd hf
              obtain ⟨hlt, hroom⟩ := hwrites b d a v hreach hmode
              by_cases hfit : d.offset + args.size ≤ fileEnd
              · obtain ⟨henough, hstep⟩ := hroom hfit
                obtain ⟨v', bs', hwrite, hindex, hstat, hperms, hkind, hbytes, hothers⟩ :=
                  hold.write hh.sound hf.mem hlen hfit henough hstep (hoff _ o ⟨hk, ho⟩ hmode)
                    { v.stat with stAtim := env.clock 0, stMtim := env.clock 0 }
                obtain ⟨t, td, hcall, hup, hupd⟩ := write_assigns hh hfd hf hmode hwrite
                refine ⟨{ s with inodeTable := t, descriptorTable := td, blocks := bs' },
                  ⟨.success, .nothing⟩, _, ?_, .wrote rfl hdata ⟨hk, ho⟩ hmode hfit rfl, hr.names,
                  ?_, hr.handles.moved hh.numbers (FoundDesc.desc hfd) hupd.replaced⟩
                · rw [hserve, hcall]
                  rfl
                · have hnew : HoldsFile bs' v' (o.overwritten d.offset data (env.clock 0)) := by
                    have hcount : (o.content.take d.offset ++ data).length
                        = d.offset + args.size := by
                      have := hoff _ o ⟨hk, ho⟩ hmode
                      rw [List.length_append, List.length_take, hlen]
                      change d.offset ≤ o.content.length at this
                      omega
                    refine ⟨?_, hperms.trans hold.perms, hkind.trans hold.kind,
                      fun pos hpos => hbytes pos ?_⟩
                    · rw [hstat, hold.stat, ← hcount]
                      rfl
                    · rw [← hcount]
                      exact hpos
                  exact hr.files.modified hh.agree.distinct ho hv hup.replaced hindex hnew
                    (hothers t hup.replaced)
              · have hu : fileEnd < u32 (d.offset + args.size) := by
                  rw [u32_of_lt hlt]
                  exact Nat.lt_of_not_le hfit
                obtain ⟨t, td, hcall, hup, hupd⟩ := write_assigns hh hfd hf hmode
                  (@writeInode_too_long s.blocks (Inode.written v (env.clock 0)) data _ _ hu)
                refine ⟨{ s with inodeTable := t, descriptorTable := td }, ⟨.failure, .nothing⟩, _,
                  ?_, .tooLong rfl ⟨hk, ho⟩ hmode (Nat.lt_of_not_le hfit) rfl, hr.names,
                  hr.files.touched hh.agree.distinct ho hf hup rfl (hold.modified _), ?_⟩
                · rw [hserve, hcall]
                  rfl
                · have hm := hr.handles.moved hh.numbers (FoundDesc.desc hfd) hupd.replaced
                  rw [show some { Descriptor.handle d with offset := d.offset } = f.handles args.fd
                    from hk.symm, Function.update_eq_self] at hm
                  exact hm

end Handlers

end LibfsSpecs
