import Libfs.FailedSymlinks
import Libfs.Numbering

/-! # The list of open descriptors

    A new descriptor goes to the end of the list and gets the number behind
    that of the last one, which may have been closed and counted again since.
    The numbers increase from the head to the tail all the same, so no two open
    descriptors share one and a close takes out the node it names. -/

namespace LibfsSpecs

open LibfsHeap LibfsStdio LibfsCommon LibfsInode LibfsOperations LibfsRun LibfsNumbering

/-- The numbers of the open descriptors, first opened first. -/
def descNumbers (t : Table Descriptor) : List Nat := t.live.map fun p => p.2.desc

/-- The request is an `OPEN`. -/
def isOpen (e : Event) : Bool :=
  match e.request with
  | .open _ => true
  | _ => false

/-! ## The numbers increase -/

theorem nextDesc_eq (t : Table Descriptor) : nextDesc t = issue 4294967296 (descNumbers t) := by
  unfold nextDesc issue descNumbers
  rw [List.getLast?_map]
  cases t.live.getLast? with
  | none => rfl
  | some p => rfl

/-- Moving a descriptor's offset leaves its number. -/
theorem numbers_moved {t t' : Table Descriptor} {l r : List (Nat × Descriptor)} {b : Nat}
    {d : Descriptor} {offset : Nat} (h : t.Updated t' l r b d { d with offset := offset }) :
    descNumbers t' = descNumbers t := by
  unfold descNumbers
  rw [h.before, h.after, List.map_append, List.map_append]
  rfl

theorem numbers_removed {t t' : Table Descriptor} {l r : List (Nat × Descriptor)} {b : Nat}
    {d : Descriptor} (h : t.Removed t' l r b d) : (descNumbers t').Sublist (descNumbers t) := by
  unfold descNumbers
  rw [h.before, h.after]
  exact (List.Sublist.append_left (List.sublist_cons_self ..) l).map _

/-- A request takes a number out or has the next one issued; only an `OPEN`
    does the latter. -/
theorem Change.renumbers {s s' : State} {e : Event} (hw : WellLinked s) (h : Change s e s') :
    Renumbers 4294967296 (isOpen e = true) (descNumbers s.descriptorTable)
      (descNumbers s'.descriptorTable) := by
  cases h with
  | refused | created | touched | renamed | linked | unlinkedName | unlinkedFile =>
      exact Renumbers.same
  | symlinked _ _ _ _ hn _ _ _ hic hcopy =>
      have hmid : WellLinked { s with inodeTable := _, filenameTable := _ } :=
        ⟨hic.wf, hn.wf, hw.descs, hw.headed⟩
      rcases copyContents_ok hmid hic.after hcopy with
        ⟨_, _, _, _, _, _, _, _, _, _, _, rfl⟩ | ⟨-, rfl⟩
      · exact Renumbers.same
      · exact Renumbers.same
  | opened hreq _ _ _ _ _ _ hd =>
      refine Or.inr ⟨?_, ?_⟩
      · unfold isOpen
        rw [hreq]
      · rw [← nextDesc_eq]
        unfold descNumbers
        rw [hd.after, List.map_append]
        rfl
  | closed _ _ _ hd => exact Or.inl (numbers_removed hd)
  | wrote _ _ _ _ _ _ _ _ hd =>
      rw [numbers_moved hd]
      exact Renumbers.same
  | read _ _ _ _ _ _ _ hd =>
      rw [numbers_moved hd]
      exact Renumbers.same
  | sought _ _ _ _ _ hd =>
      rw [numbers_moved hd]
      exact Renumbers.same

theorem numbers_of_run {es : List Event} {s : State} (hr : ServiceRun es s)
    (hfew : es.countP isOpen < 4294967296) :
    Increasing (es.countP isOpen) (descNumbers s.descriptorTable) := by
  refine increasing_of_run (fun s => descNumbers s.descriptorTable) isOpen rfl ?_ hr hfew
  intro es s e s' hr hs
  have hw := wellLinked_of_run hr
  exact (step_change hw hs).renumbers hw

/-! ## Closing a descriptor -/

/-- Exactly the node of the descriptor `fd` was taken out of the list `ds`; the
    other nodes are as they were, and in the same order. -/
structure TakenOut (s s' : State) (ds : List (Nat × Descriptor)) (fd : Nat) : Prop where
  taken : ∃ l a d r, ds = l ++ (a, d) :: r ∧ d.desc = fd ∧
    s'.descriptorTable.heap[a]? = some none ∧
    s'.descriptorTable.heap.Chain none s'.descriptorTable.head (l ++ r)
  elsewhere : s' = { s with descriptorTable := s'.descriptorTable }

theorem closeInode_total {s : State} (hw : WellLinked s) (fd : Nat) :
    ∃ st s', closeInode s fd = .ok (st, s') ∧
      (st = .success ↔ ∃ p ∈ s.descriptorTable.live, p.2.desc = fd) ∧
      (st = .success → TakenOut s s' s.descriptorTable.live fd) ∧ (st ≠ .success → s' = s) := by
  unfold closeInode removeDescriptor
  rcases find_cases hw.descs hw.headed fun d => decide (d.desc = fd) with
    ⟨l, r, a, d, hf, hfind⟩ | ⟨hnone, hfind⟩
  · obtain ⟨t, ht, hrem⟩ := hw.descs.remove_split hw.headed hf.split
    refine ⟨.success, { s with descriptorTable := t }, ?_, ?_, ?_, ?_⟩
    · rw [hfind, ok_bind]
      show ((s.descriptorTable.remove a >>= _) >>= _) = _
      rw [ht]
      rfl
    · exact iff_of_true rfl ⟨(a, d), hf.mem, FoundDesc.desc hf⟩
    · intro _
      have hchain := hrem.wf.chain hrem.intact
      rw [hrem.after] at hchain
      exact ⟨⟨l, a, d, r, hf.split, FoundDesc.desc hf, hrem.freed, hchain⟩, rfl⟩
    · exact fun h => absurd rfl h
  · refine ⟨.failure, s, ?_, ?_, ?_, fun _ => rfl⟩
    · rw [hfind]
      rfl
    · refine iff_of_false (by decide) ?_
      rintro ⟨p, hp, hfd⟩
      exact of_decide_eq_false (hnone p hp) hfd
    · exact fun h => nomatch h

/-- After fewer than 2^32 opens the descriptor table is a doubly linked list
    whose numbers increase, and a close succeeds exactly on a descriptor of the
    list and takes out just that one. -/
theorem descriptor_list_integrity {es : List Event} {s : State} (hr : ServiceRun es s)
    (hfew : es.countP isOpen < 4294967296) :
    ∃ ds, s.descriptorTable.heap.Chain none s.descriptorTable.head ds ∧
      ds.Pairwise (fun p q => p.2.desc < q.2.desc) ∧
      ∀ fd, ∃ st s', closeInode s fd = .ok (st, s') ∧
        (st = .success ↔ ∃ p ∈ ds, p.2.desc = fd) ∧
        (st = .success → TakenOut s s' ds fd) ∧ (st ≠ .success → s' = s) := by
  have hw := wellLinked_of_run hr
  refine ⟨s.descriptorTable.live, hw.descs.chain hw.headed, ?_, closeInode_total hw⟩
  exact List.pairwise_map.mp (numbers_of_run hr hfew).sorted

/-- Two opens, and the first one closed. -/
def openTwiceRun : List Request :=
  [.create ⟨1, 1, 0o600, nameX⟩, .open ⟨1, 1, nameX, 0⟩, .open ⟨1, 1, nameX, 0⟩, .close ⟨1, 1, 0⟩]

theorem descriptor_list_twice :
    ∃ ds, (replay openTwiceRun).descriptorTable.heap.Chain none
        (replay openTwiceRun).descriptorTable.head ds ∧
      ds.Pairwise (fun p q => p.2.desc < q.2.desc) ∧
      ∀ fd, ∃ st s', closeInode (replay openTwiceRun) fd = .ok (st, s') ∧
        (st = .success ↔ ∃ p ∈ ds, p.2.desc = fd) ∧
        (st = .success → TakenOut (replay openTwiceRun) s' ds fd) ∧
        (st ≠ .success → s' = replay openTwiceRun) := by
  obtain ⟨es, hr, hes⟩ := run_replay_requests _ (show returns openTwiceRun = true by decide +kernel)
  refine descriptor_list_integrity hr ?_
  calc es.countP isOpen
      ≤ es.length := List.countP_le_length
    _ = (es.map Event.request).length := (List.length_map _).symm
    _ < 4294967296 := by rw [hes]; decide

end LibfsSpecs
