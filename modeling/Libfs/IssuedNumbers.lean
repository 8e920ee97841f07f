import Libfs.DescriptorTable
import Libfs.PermissionBits

/-! # Every descriptor number is issued

    A file that may be read is opened for reading again and again: nothing a
    service does in between closes a descriptor by itself, and no reader keeps
    another one out.  The number of the last descriptor goes up by one each
    time, until it wraps. -/

namespace LibfsSpecs

open LibfsHeap LibfsStdio LibfsCommon LibfsInode LibfsOperations LibfsRun LibfsNumbering

variable {s s' : State}

/-! ## An open that succeeds -/

theorem addOpenedDescriptor_total {t : Table Descriptor} (hw : t.WF) (hi : t.Intact)
    (nodeIndex offset : Nat) (mode : OpenMode) :
    ∃ t', addOpenedDescriptor t nodeIndex mode offset = .ok (nextDesc t, t') := by
  obtain ⟨⟨fd, t'⟩, h⟩ : ∃ r, addOpenedDescriptor t nodeIndex mode offset = .ok r := by
    rw [addOpenedDescriptor]
    obtain ⟨t', hpush, hpushed⟩ := hw.pushBack_eq hi _
    rw [hpush, ok_bind]
    show ∃ r, (t'.get _ >>= _) = .ok r
    rw [Table.get_ok.mpr hpushed.mem_new]
    exact ⟨_, rfl⟩
  obtain ⟨rfl, -⟩ := addOpenedDescriptor_ok hw h
  exact ⟨t', h⟩

theorem lookForOpenedWrite_none {t : Table Descriptor} (hw : t.WF) (hi : t.Intact)
    (hall : t.All fun d => d.mode = .readOnly) (n : Nat) :
    lookForOpenedWrite t n = .ok false := by
  rcases find_cases hw hi fun d => decide (d.nodeIndex = n) && decide (d.mode = .writeOnly) with
    ⟨l, r, a, d, hf, -⟩ | ⟨-, hfind⟩
  · have hread : d.mode = .readOnly := hall (a, d) hf.mem
    have hpass := hf.passes
    simp [hread] at hpass
  · rw [lookForOpenedWrite, hfind]
    rfl

/-- The file `nameX` of user 1 with the mode `0600`, and no writer of any
    file. -/
structure OpensToReaders (s : State) : Prop where
  linked : WellLinked s
  named : ∃ n l r a v, getInodeIndexForFilename s.filenameTable nameX 0 = .ok (.success, n) ∧
    FoundInode s.inodeTable n l r a v ∧ v.owner = 1 ∧ v.mode = 0o600
  intact : s.inodeTable.Intact
  readers : s.descriptorTable.All fun d => d.mode = .readOnly

/-- An `OPEN` of that file for reading, answered with the number `n`. -/
def readerEvent (n : Nat) : Event :=
  ⟨stillEnv, .open ⟨1, 1, nameX, 0⟩, ⟨.success, .descriptor n⟩⟩

theorem OpensToReaders.openInode_total (h : OpensToReaders s) :
    ∃ s', openInode s stillEnv nameX .readOnly
      = .ok (.success, nextDesc s.descriptorTable, s') := by
  obtain ⟨n, l, r, a, v, hname, hfound, -, -⟩ := h.named
  obtain ⟨td, hadd⟩ := addOpenedDescriptor_total h.linked.descs h.linked.headed n 0 .readOnly
  obtain ⟨t, hput, -⟩ := h.linked.inodes.put_split hfound.split
    { v with stat.stAtim := stillEnv.clock 0 }
  refine ⟨{ s with inodeTable := t, descriptorTable := td }, ?_⟩
  rw [openInode, hname, ok_bind]
  simp only [if_neg (Status.code_ne_neg_one _)]
  rw [lookForOpenedWrite_none h.linked.descs h.linked.headed h.readers, ok_bind,
    if_neg Bool.false_ne_true, h.linked.inodes.find_of_found h.intact hfound, ok_bind]
  show (addOpenedDescriptor s.descriptorTable n .readOnly 0 >>= _) = _
  rw [hadd, ok_bind]
  show (s.inodeTable.get a >>= _) = _
  rw [hfound.get, ok_bind, hput]
  rfl

/-- The owner may read. -/
theorem OpensToReaders.serviceOpen_total (h : OpensToReaders s) :
    ∃ s', Step s (readerEvent (nextDesc s.descriptorTable)) s' ∧
      openInode s stillEnv nameX .readOnly = .ok (.success, nextDesc s.descriptorTable, s') := by
  obtain ⟨s', hopen⟩ := h.openInode_total
  obtain ⟨n, l, r, a, v, hname, hfound, howner, hmode⟩ := h.named
  have hexists : ExistsAs s nameX v :=
    ⟨n, a, hname, h.linked.inodes.find_of_found h.intact hfound, hfound.get⟩
  have hstatus : openStatus .success ⟨1, 1, nameX, 0⟩ (Inode.attributes v) = .success := by
    simp [openStatus, OpenMode.ofFlags, checkedStatus, lookupStatus, readDenied, Inode.attributes,
      howner, hmode]
  refine ⟨s', ?_, hopen⟩
  show serviceOpen s stillEnv ⟨1, 1, nameX, 0⟩ = _
  rw [serviceOpen, hexists.permissions, ok_bind]
  simp only [hstatus]
  show (openInode s stillEnv nameX .readOnly >>= _) = _
  rw [hopen]
  rfl

theorem nextDesc_pushed {t t' : Table Descriptor} {b nodeIndex : Nat} {mode : OpenMode}
    (h : t.Pushed t' b ⟨nextDesc t, mode, 0, nodeIndex⟩) : nextDesc t' = u32 (nextDesc t + 1) := by
  have hlast : t'.live.getLast? = some (b, ⟨nextDesc t, mode, 0, nodeIndex⟩) := by
    rw [h.after, List.getLast?_concat]
  rw [nextDesc, hlast]

/-- One more reader, and the file opens to readers still. -/
theorem OpensToReaders.next (h : OpensToReaders s) :
    ∃ s', Step s (readerEvent (nextDesc s.descriptorTable)) s' ∧ OpensToReaders s' ∧
      nextDesc s'.descriptorTable = u32 (nextDesc s.descriptorTable + 1) := by
  obtain ⟨s', hstep, hopen⟩ := h.serviceOpen_total
  obtain ⟨n, ln, rn, an, vn, hname, hfound, howner, hmode⟩ := h.named
  rcases openInode_ok h.linked hopen with
    ⟨-, -, l, r, a, v, t, td, b, hf, -, hup, hpush, rfl⟩ | ⟨hne, -⟩
  · rw [← getIndex_nodeOf h.linked.names hname] at hf
    obtain ⟨-, -, -, rfl⟩ := hfound.unique hf
    refine ⟨_, hstep, ⟨⟨hup.wf, h.linked.names, hpush.wf, hpush.intact⟩, ?_, ?_, ?_⟩, ?_⟩
    · exact ⟨n, l, r, a, _, hname, hf.updated hup hf.passes, howner, hmode⟩
    · exact hup.intact.mpr h.intact
    · exact hpush.all h.readers rfl
    · exact nextDesc_pushed hpush
  · exact absurd rfl hne

/-! ## Opening again and again -/

theorem opensToReaders_created : OpensToReaders (replay [.create ⟨1, 1, 0o600, nameX⟩]) where
  linked := by
    obtain ⟨es, hr⟩ := run_replay (show returns [.create ⟨1, 1, 0o600, nameX⟩] = true by
      decide +kernel)
    exact wellLinked_of_run hr
  named := ⟨0, [], [], 0, plainFile, by decide +kernel,
    ⟨by decide +kernel, rfl, fun _ h => nomatch h⟩, rfl, rfl⟩
  intact := by
    rw [Table.Intact]
    decide +kernel
  readers := by
    rw [Table.All]
    decide +kernel

theorem opensToReaders_of_number (n : Nat) : ∃ es s, ServiceRun es s ∧ OpensToReaders s ∧
    nextDesc s.descriptorTable = u32 n := by
  induction n with
  | zero =>
      obtain ⟨es, hr⟩ := run_replay (show returns [.create ⟨1, 1, 0o600, nameX⟩] = true by
        decide +kernel)
      exact ⟨es, _, hr, opensToReaders_created, by decide +kernel⟩
  | succ n ih =>
      obtain ⟨es, s, hr, hopens, hnext⟩ := ih
      obtain ⟨s', hstep, hopens', hnext'⟩ := hopens.next
      refine ⟨_, s', .next hr hstep, hopens', ?_⟩
      rw [hnext', hnext, u32, u32, u32, Nat.mod_add_mod]

/-- Some run of the service ends with a descriptor of any number being
    issued. -/
theorem every_number_issued {n : Nat} (hn : n < 4294967296) :
    ∃ es s s', ServiceRun es s ∧ Step s (readerEvent n) s' := by
  obtain ⟨es, s, hr, hopens, hnext⟩ := opensToReaders_of_number n
  obtain ⟨s', hstep, -, -⟩ := hopens.next
  rw [hnext, u32_of_lt hn] at hstep
  exact ⟨es, s, s', hr, hstep⟩

end LibfsSpecs
