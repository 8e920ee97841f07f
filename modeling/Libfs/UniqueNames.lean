import Libfs.Namespace
import Libfs.Numbering

/-! # Names and indices stay unique

    Four requests bring in a name, and each one looks for it in the whole list
    before.  Two of them bring in an inode, whose index is issued from the last
    inode of the list, whichever inodes were unlinked before. -/

namespace LibfsSpecs

open LibfsHeap LibfsStdio LibfsCommon LibfsInode LibfsOperations LibfsRun LibfsNumbering

/-- The request may add an inode. -/
def mayAddInode (e : Event) : Bool :=
  match e.request with
  | .create _ | .symlink _ => true
  | _ => false

/-! ## Indices -/

theorem nextIndex_eq (t : Table Inode) : nextIndex t = issue 4294967296 (indices t) := by
  unfold nextIndex issue indices
  rw [List.getLast?_map]
  cases t.live.getLast? with
  | none => rfl
  | some p => rfl

theorem indices_detached {t t' : Table Inode} {l r : List (Nat × Inode)} {a : Nat} {v : Inode}
    (h : t.Detached t' l r a v) : (indices t').Sublist (indices t) := by
  unfold indices
  rw [h.before, h.after]
  exact (List.Sublist.append_left (List.sublist_cons_self ..) l).map _

/-- The new inode has the index that was issued. -/
theorem indices_added {t t' : Table Inode} {a : Nat} {v : Inode} (h : t.Pushed t' a v)
    (hv : v.index = nextIndex t) : indices t' = indices t ++ [issue 4294967296 (indices t)] := by
  rw [indices_pushed h, hv, nextIndex_eq]

theorem mayAdd_of_adds {s : State} {e : Event} (h : AddsInode s e.request) :
    mayAddInode e = true := by
  unfold mayAddInode
  cases hreq : e.request with
  | create | symlink => rfl
  | chmode | rename | unlink | «open» | read | write | seek | close | stat | link =>
      rw [hreq] at h
      exact h.elim

/-- A request takes an index out or has the next one issued; only one that adds
    an inode does the latter. -/
theorem Change.reindexes {s s' : State} {e : Event} (hw : WellLinked s)
    (hs : Sound s.inodeTable s.blocks) (h : Change s e s') :
    Renumbers 4294967296 (AddsInode s e.request) (indices s.inodeTable)
      (indices s'.inodeTable) := by
  have hkept : ∀ {t : Table Inode} {l r a v v'}, s.inodeTable.Updated t l r a v v' →
      v'.index = v.index →
      Renumbers 4294967296 (AddsInode s e.request) (indices s.inodeTable) (indices t) := by
    intro t l r a v v' hup hindex
    rw [indices_updated hup hindex]
    exact Renumbers.same
  cases h with
  | refused | renamed | closed | sought => exact Renumbers.same
  | created hreq _ hfree hi =>
      refine Or.inr ⟨?_, indices_added hi rfl⟩
      rw [hreq]
      exact hfree
  | touched _ _ hi hsame => exact hkept hi hsame.index
  | linked _ _ _ _ hi => exact hkept hi rfl
  | @symlinked args t₁ c tn x lp rp a vp t₂ lc rc b vc t₃ _ _ hadds _ hi hn _ hip _ hic hcopy =>
      have hthree : indices t₃ = indices s.inodeTable ++ [issue 4294967296 (indices s.inodeTable)] := by
        rw [indices_updated hic rfl, indices_updated hip rfl]
        exact indices_added hi rfl
      have hs3 := ((hs.pushed hi rfl).touched hip ⟨rfl, rfl, rfl⟩).touched hic ⟨rfl, rfl, rfl⟩
      have hmid : WellLinked { s with inodeTable := t₃, filenameTable := tn } :=
        ⟨hic.wf, hn.wf, hw.descs, hw.headed⟩
      rcases copyContents_ok hmid hic.after hcopy with
        ⟨_, _, _, _, _, _, _, hbuf, hwr, -, hup, rfl⟩ | ⟨-, rfl⟩
      · obtain ⟨p, ks, hwrote, -⟩ := wrote_of_writeInode hbuf hwr (hs3.blocksInside hup.mem_old)
        exact Or.inr ⟨hadds, (indices_updated hup hwrote.index).trans hthree⟩
      · exact Or.inr ⟨hadds, hthree⟩
  | opened _ _ _ _ _ _ hi => exact hkept hi rfl
  | wrote _ hdata _ _ hv hwr _ hi =>
      obtain ⟨p, ks, hwrote, -⟩ :=
        wrote_of_writeInode (slice_all hdata).ge hwr ((hs.blocksInside hv.mem).congr rfl)
      exact hkept hi hwrote.index
  | read _ _ _ _ _ _ hi => exact hkept hi rfl
  | unlinkedName _ _ _ _ _ hi => exact hkept hi rfl
  | @unlinkedFile _ _ _ _ _ t _ _ _ _ _ _ _ _ _ _ _ _ hi _ hi' =>
      have hsame : indices t = indices s.inodeTable := indices_updated hi rfl
      have hsub := indices_detached hi'
      rw [hsame] at hsub
      exact Or.inl hsub

theorem indices_of_run {es : List Event} {s : State} (hr : ServiceRun es s)
    (hfew : es.countP mayAddInode < 4294967296) :
    Increasing (es.countP mayAddInode) (indices s.inodeTable) := by
  refine increasing_of_run (fun s => indices s.inodeTable) mayAddInode rfl ?_ hr hfew
  intro es s e s' hr hs
  have hw := wellLinked_of_run hr
  exact ((step_change hw hs).reindexes hw (sound_of_run hr)).imp mayAdd_of_adds

/-! ## Names -/

/-- Every request leaves the names distinct. -/
theorem Change.names_distinct {s s' : State} {e : Event} (hw : WellLinked s)
    (hu : (names s.filenameTable).Nodup) (h : Change s e s') : (names s'.filenameTable).Nodup := by
  cases h with
  | refused | touched | opened | closed | wrote | read | sought => exact hu
  | created _ _ hfree _ hn => exact names_pushed hn hu hfree
  | renamed _ _ hfree _ hn => exact names_renamed hn hu hfree
  | linked _ _ hfree _ _ hn => exact names_pushed hn hu hfree
  | symlinked _ _ hfree hi hn _ _ _ hic hcopy =>
      have hmid : WellLinked { s with inodeTable := _, filenameTable := _ } :=
        ⟨hic.wf, hn.wf, hw.descs, hw.headed⟩
      rcases copyContents_ok hmid hic.after hcopy with
        ⟨_, _, _, _, _, _, _, _, _, _, _, rfl⟩ | ⟨-, rfl⟩
      · exact names_pushed hn hu hfree
      · exact names_pushed hn hu hfree
  | unlinkedName _ _ _ _ hn => exact names_detached hn hu
  | unlinkedFile _ _ _ _ hn => exact names_detached hn hu

theorem names_of_run {es : List Event} {s : State} (hr : ServiceRun es s) :
    (names s.filenameTable).Nodup :=
  (invariant_of_change (fun s => (names s.filenameTable).Nodup) List.nodup_nil
    (fun _ _ _ hw hu hc => hc.names_distinct hw hu) hr).2

/-- In every state of every run with fewer than 2^32 requests that may add an
    inode, no two entries of the filename table have equal names and the indices
    increase in the order of the links of the inode table. -/
theorem names_and_indices_unique {es : List Event} {s : State} (hr : ServiceRun es s)
    (hfew : es.countP mayAddInode < 4294967296) :
    s.filenameTable.heap.Linked ∧ s.filenameTable.live.Pairwise (fun p q => p.2.filename ≠ q.2.filename) ∧
      s.inodeTable.heap.Linked ∧ s.inodeTable.live.Pairwise (fun p q => p.2.index < q.2.index) := by
  have hw := wellLinked_of_run hr
  exact ⟨hw.names.linked, List.pairwise_map.mp (names_of_run hr), hw.inodes.linked,
    List.pairwise_map.mp (indices_of_run hr hfew).sorted⟩

/-- A file, a link to it, a link to itself that is refused, and another name. -/
def fourNamesRun : List Request :=
  [.create ⟨1, 1, 0o600, nameX⟩, .link ⟨1, 1, nameX, nameA⟩, .link ⟨1, 1, nameA, nameA⟩,
    .rename ⟨nameA, nameB⟩]

theorem names_and_indices_four :
    (replay fourNamesRun).filenameTable.heap.Linked ∧
      (replay fourNamesRun).filenameTable.live.Pairwise (fun p q => p.2.filename ≠ q.2.filename) ∧
      (replay fourNamesRun).inodeTable.heap.Linked ∧
      (replay fourNamesRun).inodeTable.live.Pairwise (fun p q => p.2.index < q.2.index) := by
  obtain ⟨es, hr, hes⟩ := run_replay_requests _ (show returns fourNamesRun = true by decide +kernel)
  refine names_and_indices_unique hr ?_
  calc es.countP mayAddInode
      ≤ es.length := List.countP_le_length
    _ = (es.map Event.request).length := (List.length_map _).symm
    _ < 4294967296 := by rw [hes]; decide

end LibfsSpecs
