import Libfs.Startup
import Libfs.Represents
import Libfs.SavedInodes
import Libfs.SavedNames
import Libfs.SavedBlocks

/-! # What a restart keeps

    The tables come back as they were printed: every inode but for the
    fractions of its times, every name, and the block table.  So healthy
    tables are healthy after a restart. -/

namespace LibfsSpecs

open LibfsHeap LibfsStdio LibfsCommon LibfsInode LibfsOperations LibfsRun LibfsText

/-! ## An inode that was saved -/

/-- The seconds were printed; the nanoseconds are made from them. -/
def Timespec.restored (time : Timespec) : Timespec :=
  ⟨time.tvSec, toInt32 (time.tvSec * 1000000)⟩

/-- An inode as it is read back: the times are whole seconds. -/
def Inode.restored (v : Inode) : Inode :=
  { v with stat := ⟨v.stat.stSize, Timespec.restored v.stat.stAtim,
      Timespec.restored v.stat.stMtim, Timespec.restored v.stat.stCtim⟩ }

/-- The nanoseconds are those that go with the seconds. -/
def WholeSeconds (time : Timespec) : Prop := time = Timespec.restored time

/-- A line gives whole seconds. -/
theorem inodeOfLine_times {line : Bytes} {v : Inode} (h : inodeOfLine line = .ok v) :
    WholeSeconds v.stat.stAtim ∧ WholeSeconds v.stat.stMtim ∧ WholeSeconds v.stat.stCtim := by
  rw [inodeOfLine] at h
  -- ten numbers, the blocks and the last block
  iterate 12 obtain ⟨⟨_, _⟩, -, h⟩ := bind_ok_iff.mp h
  obtain rfl := Except.ok.inj h
  exact ⟨rfl, rfl, rfl⟩

/-- The line that was printed for an inode gives it back, up to the fractions of
    its times. -/
theorem inodeOfLine_restored {v : Inode} (h : FitsFields v) :
    inodeOfLine (inodeText v ++ newline) = .ok (Inode.restored v) := by
  obtain ⟨v', hline, hsame⟩ := inodeOfLine_eq h
  obtain ⟨hatime, hmtime, hctime⟩ := inodeOfLine_times hline
  rw [hline]
  have hstat : v'.stat = (Inode.restored v).stat := by
    rw [Inode.restored, ← hsame.size]
    simp only [Timespec.restored, ← hsame.atime, ← hsame.mtime, ← hsame.ctime]
    show v'.stat = ⟨_, Timespec.restored v'.stat.stAtim, Timespec.restored v'.stat.stMtim,
      Timespec.restored v'.stat.stCtim⟩
    rw [← hatime, ← hmtime, ← hctime]
  obtain ⟨index, type, stat, mode, owner, group, count, blocks⟩ := v'
  obtain rfl := hsame.index
  obtain rfl := hsame.type
  obtain rfl := hsame.owner
  obtain rfl := hsame.ownerGroup
  obtain rfl := hsame.refCount
  obtain rfl := hsame.mode
  obtain rfl := hsame.blocks
  obtain rfl := hstat
  rfl

/-- Its blocks, its size and its index are the same. -/
theorem Inode.restored_same (v : Inode) : SameFile v (Inode.restored v) := ⟨rfl, rfl, rfl⟩

/-! ## The block table carries numbers -/

/-- The indices in the block table fit an `unsigned`. -/
def SlotsNumbered (bs : BlockStore) : Prop :=
  ∀ (k : Nat) (block : DataBlock), bs.dataBlockTable[k]? = some block →
    block.inodeIndex < 4294967296

/-- The table the service starts with carries such numbers. -/
theorem slotsNumbered_init : SlotsNumbered State.init.blocks := by
  intro k block hk
  exact first_table_indices block (Vector.mem_toList_iff.mpr (Vector.mem_of_getElem? hk))

section Slots

variable {bs bs' : BlockStore} {v v' : Inode} {buf : Bytes} {offset offset' size : Nat} {st : Status}

/-- A write puts the index of its file into the slots it takes. -/
theorem SlotsNumbered.wrote {start p : Nat} {ks : List Nat} (h : SlotsNumbered bs)
    (hw : Wrote bs bs' v v' start p ks) (hv : v.index < 4294967296) : SlotsNumbered bs' := by
  intro k block hk
  have hlt : k < numOfDataBlocks := by
    by_contra hge
    rw [Vector.getElem?_eq_none (Nat.le_of_not_lt hge)] at hk
    cases hk
  rw [hw.table, occupySlots_getElem? _ _ _ _ hlt] at hk
  by_cases hmem : k ∈ ks
  · rw [if_pos hmem] at hk
    obtain rfl := Option.some.inj hk
    exact hv
  · rw [if_neg hmem] at hk
    exact h k block hk

/-- A slot that is given back holds zero. -/
theorem SlotsNumbered.freed {tbl : Vector DataBlock numOfDataBlocks} {blocks : List Nat}
    (h : SlotsNumbered bs) (hf : freeBlocks bs.dataBlockTable blocks = .ok tbl) :
    SlotsNumbered { bs with dataBlockTable := tbl } := by
  intro k block hk
  have hlt : k < numOfDataBlocks := by
    by_contra hge
    rw [Vector.getElem?_eq_none (Nat.le_of_not_lt hge)] at hk
    cases hk
  change tbl[k]? = some block at hk
  rw [freeBlocks_ok _ hf k hlt] at hk
  by_cases hmem : k + 1 ∈ freedBlocks blocks
  · rw [if_pos hmem] at hk
    obtain rfl := Option.some.inj hk
    exact Nat.zero_lt_succ _
  · rw [if_neg hmem] at hk
    exact h k block hk

end Slots

/-- No request puts another number into a slot. -/
theorem Change.slotsNumbered {s s' : State} {e : Event} (hw : WellLinked s) (hfit : IndicesFit s)
    (h : SlotsNumbered s.blocks) (hc : Change s e s') : SlotsNumbered s'.blocks := by
  cases hc with
  | symlinked _ _ _ hi hn _ hip hc hic hcopy =>
      have hs₃ := ((hfit.sound.pushed hi rfl).touched hip ⟨rfl, rfl, rfl⟩).touched hic ⟨rfl, rfl, rfl⟩
      have hmid : WellLinked { s with inodeTable := _, filenameTable := _ } :=
        ⟨hic.wf, hn.wf, hw.descs, hw.headed⟩
      rcases copyContents_ok hmid hic.after hcopy with
        ⟨_, _, _, _, _, _, _, hbuf, hwr, -, hup, rfl⟩ | ⟨-, rfl⟩
      · have hin := hs₃.blocksInside hup.mem_old
        obtain ⟨_, _, hwrote, -⟩ := wrote_of_writeInode hbuf hwr hin
        exact h.wrote hwrote ((FoundInode.index hc).trans_lt (nextIndex_lt _))
      · exact h
  | wrote _ hdata _ _ hv hwr =>
      have hin : BlocksInside s.blocks (Inode.written _ (e.env.clock 0)) :=
        (hfit.sound.blocksInside hv.mem).congr rfl
      obtain ⟨_, _, hwrote, -⟩ := wrote_of_writeInode (slice_all hdata).ge hwr hin
      exact h.wrote hwrote (hfit.inodes _ hv.mem)
  | unlinkedFile _ _ _ _ _ _ _ _ hblk => exact h.freed hblk
  | _ => exact h

/-! ## The tables are opened again -/

/-- The tables before and after a restart. -/
structure Reopened (s s' : State) : Prop where
  linked : WellLinked s'
  inodesHeaded : s'.inodeTable.Intact
  namesHeaded : s'.filenameTable.Intact
  inodes : s'.inodeTable.live.map Prod.snd = (s.inodeTable.live.map Prod.snd).map Inode.restored
  entries : s'.filenameTable.live.map Prod.snd = s.filenameTable.live.map Prod.snd
  descriptors : s'.descriptorTable = .empty
  blocks : s'.blocks = s.blocks

/-- What the files can hold. -/
structure Printable (s : State) : Prop where
  inodes : s.inodeTable.All FitsFields
  indices : s.filenameTable.All fun x => x.nodeIndex < 4294967296
  plain : s.filenameTable.All fun x => Plain x.filename
  slots : SlotsNumbered s.blocks

/-- The inode table parses back, and gives the same inodes up to fractions. -/
theorem inodes_reopened {t : Table Inode} (hw : t.WF) (hi : t.Intact) (hfit : t.All FitsFields) :
    ∃ file t', closeInodeTable t = .ok file ∧ openInodeTable (some file) .empty = .ok t' ∧
      t'.WF ∧ t'.Intact ∧ t'.live.map Prod.snd = (t.live.map Prod.snd).map Inode.restored := by
  have hall : ∀ v ∈ t.live.map Prod.snd, FitsFields v := by
    intro v hv
    obtain ⟨p, hp, rfl⟩ := List.mem_map.mp hv
    exact hfit p hp
  have hclose : closeInodeTable t
      = .ok (((t.live.map Prod.snd).map inodeText).flatMap (· ++ newline)) := by
    rw [closeInodeTable, hw.values_eq hi, List.flatMap_map]
    rfl
  have hlines : ∀ body ∈ (t.live.map Prod.snd).map inodeText,
      10 ∉ body ∧ body.length + 1 < lineSize := by
    intro body hbody
    obtain ⟨v, hv, rfl⟩ := List.mem_map.mp hbody
    exact inodeText_fits (hall v hv)
  have hmake : List.Forall₂ (fun body v => inodeOfLine (body ++ newline) = .ok v)
      ((t.live.map Prod.snd).map inodeText) ((t.live.map Prod.snd).map Inode.restored) := by
    rw [List.forall₂_map_left_iff, List.forall₂_map_right_iff, List.forall₂_same]
    exact fun v hv => inodeOfLine_restored (hall v hv)
  obtain ⟨t', hopen, hw', hi', hvalues⟩ := openLines_file hlines hmake
  exact ⟨_, t', hclose, hopen, hw', hi', Except.ok.inj ((hw'.values_eq hi').symm.trans hvalues)⟩

/-- The table of plain names parses back as it was. -/
theorem names_reopened {t : Table FilenameInode} (hw : t.WF) (hi : t.Intact)
    (hindex : t.All fun x => x.nodeIndex < 4294967296) (hplain : t.All fun x => Plain x.filename) :
    ∃ file t', closeFilenameTable t = .ok file ∧ openFilenameTable (some file) .empty = .ok t' ∧
      t'.WF ∧ t'.Intact ∧ t'.live.map Prod.snd = t.live.map Prod.snd := by
  have hentries : ∀ {P : FilenameInode → Prop}, t.All P → ∀ x ∈ t.live.map Prod.snd, P x := by
    intro P hall x hx
    obtain ⟨p, hp, rfl⟩ := List.mem_map.mp hx
    exact hall p hp
  obtain ⟨t', hopen, hw', hi', hvalues⟩ := printed_read (hentries hindex) (hentries hplain)
  exact ⟨_, t', closeFilenameTable_eq hw hi, hopen, hw', hi',
    Except.ok.inj ((hw'.values_eq hi').symm.trans hvalues)⟩

/-- A restart does not fail and brings the tables back. -/
theorem restart_restores {s : State} (hw : WellLinked s) (hi : s.inodeTable.Intact)
    (hn : s.filenameTable.Intact) (h : Printable s) :
    ∃ s', restart s = .ok s' ∧ Reopened s s' := by
  obtain ⟨file, ti, hclose, hopen, hwi, hii, hinodes⟩ := inodes_reopened hw.inodes hi h.inodes
  obtain ⟨names, tn, hclosen, hopenn, hwn, hin, hnames⟩ :=
    names_reopened hw.names hn h.indices h.plain
  have hblocks := @openDataBlockTable_closed s.blocks.dataBlockTable fun block hb => by
    obtain ⟨k, hk⟩ := Vector.mem_iff_getElem?.mp (Vector.mem_toList_iff.mp hb)
    exact h.slots k block hk
  refine ⟨⟨ti, .empty, tn, s.blocks⟩, ?_, ⟨hwi, hwn, Table.wf_empty, Table.intact_empty⟩, hii, hin,
    hinodes, hnames, rfl, rfl⟩
  rw [restart, closeTables, hclose, ok_bind, closeFileDescriptorsTable,
    hw.descs.values_eq hw.headed]
  show (closeFilenameTable s.filenameTable >>= _) >>= _ = _
  rw [hclosen]
  show openTables ⟨some file, some (closeDataBlockTable s.blocks.dataBlockTable), some names,
    s.blocks.data⟩ = _
  rw [openTables, hopen, ok_bind, hblocks, ok_bind, hopenn]
  rfl

/-! ## Healthy tables stay healthy -/

section Healthy

variable {s s' : State}

/-- An inode that was read back was there before. -/
theorem Reopened.mem_inodes (h : Reopened s s') {a : Nat} {v' : Inode}
    (hv : (a, v') ∈ s'.inodeTable.live) :
    ∃ p ∈ s.inodeTable.live, v' = Inode.restored p.2 := by
  have hmem : v' ∈ s'.inodeTable.live.map Prod.snd := List.mem_map_of_mem hv
  rw [h.inodes, List.map_map] at hmem
  obtain ⟨p, hp, rfl⟩ := List.mem_map.mp hmem
  exact ⟨p, hp, rfl⟩

/-- What holds of all inodes, whatever the fractions of their times, still
    holds. -/
theorem Reopened.all_inodes (h : Reopened s s') {P : Inode → Prop} (hall : s.inodeTable.All P)
    (hP : ∀ v, P v → P (Inode.restored v)) : s'.inodeTable.All P := by
  rintro ⟨a, v'⟩ hv
  obtain ⟨p, hp, rfl⟩ := h.mem_inodes hv
  exact hP p.2 (hall p hp)

/-- The indices are the same, in the same order. -/
theorem Reopened.indices (h : Reopened s s') : indices s'.inodeTable = indices s.inodeTable := by
  have hmap := congrArg (List.map fun v => v.index) h.inodes
  rwa [List.map_map, List.map_map, List.map_map] at hmap

/-- The names lead to the same indices. -/
theorem Reopened.nodes (h : Reopened s s') : nodes s'.filenameTable = nodes s.filenameTable := by
  have hmap := congrArg (List.map fun x => x.nodeIndex) h.entries
  rwa [List.map_map, List.map_map] at hmap

/-- The names are the same. -/
theorem Reopened.names (h : Reopened s s') : names s'.filenameTable = names s.filenameTable := by
  have hmap := congrArg (List.map fun x => x.filename) h.entries
  rwa [List.map_map, List.map_map] at hmap

/-- Names and inodes still fit each other. -/
theorem Reopened.agree (h : Reopened s s') (ha : Agree s.inodeTable s.filenameTable) :
    Agree s'.inodeTable s'.filenameTable where
  inodes := h.inodesHeaded
  entries := h.namesHeaded
  distinct := h.indices ▸ ha.distinct
  unique := h.names ▸ ha.unique
  live := by
    rw [h.nodes, h.indices]
    exact ha.live
  named := by
    rw [h.nodes]
    exact h.all_inodes (P := fun v => v.index ∈ LibfsSpecs.nodes s.filenameTable) ha.named
      fun v hv => hv
  counted := by
    rw [h.nodes]
    exact h.all_inodes (P := fun v => v.refCount = (LibfsSpecs.nodes s.filenameTable).count v.index)
      ha.counted fun v hv => hv
  bounded := h.all_inodes (P := fun v => v.refCount < 4294967296) ha.bounded fun v hv => hv

/-- The inodes are at other addresses, but in the same order. -/
theorem Reopened.sound (h : Reopened s s') (ha : Agree s.inodeTable s.filenameTable)
    (hs : Sound s.inodeTable s.blocks) : Sound s'.inodeTable s'.blocks where
  whole := by
    rw [h.blocks]
    exact hs.whole
  inside := by
    rw [h.blocks]
    exact hs.inside
  taken := by
    rintro a i b ⟨v', hv, hb⟩
    obtain ⟨p, hp, rfl⟩ := h.mem_inodes hv
    rw [h.blocks]
    exact hs.taken p.1 i b ⟨p.2, hp, hb⟩
  once := by
    rintro a i a' i' b ⟨v, hv, hb⟩ ⟨w, hw, hb'⟩
    obtain ⟨p, hp, rfl⟩ := h.mem_inodes hv
    obtain ⟨q, hq, rfl⟩ := h.mem_inodes hw
    obtain ⟨haddr, rfl⟩ := hs.once p.1 i q.1 i' b ⟨p.2, hp, hb⟩ ⟨q.2, hq, hb'⟩
    have hpq : p.2 = q.2 := Heap.live_unique hp (haddr ▸ hq)
    refine ⟨?_, rfl⟩
    exact congrArg Prod.fst ((h.agree ha).index_inj hv hw (congrArg (fun v => v.index) hpq))

/-- Healthy tables are read back as healthy ones. -/
theorem Healthy.restored (hh : Healthy s) (h : Reopened s s') : Healthy s' where
  linked := h.linked
  agree := h.agree hh.agree
  sound := h.sound hh.agree hh.sound
  sizes := h.all_inodes hh.sizes fun v hv => hv
  noHoles := by
    rintro ⟨a, v'⟩ hv
    obtain ⟨p, hp, rfl⟩ := h.mem_inodes hv
    obtain ⟨n, hn, -⟩ := hh.noHoles p hp
    refine ⟨n, hn.same (Inode.restored_same p.2), ?_⟩
    rw [h.descriptors]
    exact fun q hq => absurd hq List.not_mem_nil
  numbers := by
    rw [h.descriptors]
    exact List.nodup_nil

/-- The next index still fits its field. -/
theorem IndicesFit.restored (hfit : IndicesFit s) (ha : Agree s.inodeTable s.filenameTable)
    (h : Reopened s s') : IndicesFit s' where
  sound := h.sound ha hfit.sound
  inodes := h.all_inodes hfit.inodes fun v hv => hv
  entries := by
    intro p hp
    have hmem : p.2 ∈ s'.filenameTable.live.map Prod.snd := List.mem_map_of_mem hp
    rw [h.entries] at hmem
    obtain ⟨q, hq, he⟩ := List.mem_map.mp hmem
    rw [← he]
    exact hfit.entries q hq

end Healthy

end LibfsSpecs
