import Libfs.Disk

/-! # Descriptors

    Three results about the descriptor table over whole runs: a writer is
    alone and last among the descriptors of its inode, every descriptor was
    opened by someone whose rights were checked, and a descriptor stays with
    the file it was opened on as long as no inode index is issued again.

    A descriptor is known by the address of its node: nodes are never
    allocated twice at one address, while numbers are. -/

namespace LibfsSpecs

open LibfsHeap LibfsStdio LibfsCommon LibfsInode LibfsOperations LibfsRun

/-! ## Writers exclude everyone after them -/

/-- Behind a writer stands no other descriptor of its inode. -/
def Exclusive (ds : List Descriptor) : Prop :=
  ds.Pairwise fun d d' => d.mode = .writeOnly → d'.nodeIndex ≠ d.nodeIndex

/-- Moving a descriptor's offset does not matter. -/
theorem Exclusive.moved {l r : List Descriptor} {d d' : Descriptor} (h : Exclusive (l ++ d :: r))
    (hmode : d'.mode = d.mode) (hnode : d'.nodeIndex = d.nodeIndex) :
    Exclusive (l ++ d' :: r) := by
  obtain ⟨hl, hdr, hcross⟩ := List.pairwise_append.mp h
  obtain ⟨hd, hr⟩ := List.pairwise_cons.mp hdr
  refine List.pairwise_append.mpr ⟨hl, List.pairwise_cons.mpr ⟨?_, hr⟩, ?_⟩
  · intro x hx hw
    rw [hnode]
    exact hd x hx (hmode.symm.trans hw)
  · intro x hx y hy
    rcases List.mem_cons.mp hy with rfl | hy
    · rw [hnode]
      exact hcross x hx d (List.mem_cons_self ..)
    · exact hcross x hx y (List.mem_cons_of_mem d hy)

/-- A new descriptor may stand behind all others if none of them writes its
    inode. -/
theorem Exclusive.snoc {ds : List Descriptor} {d : Descriptor} (h : Exclusive ds)
    (hd : ∀ w ∈ ds, w.nodeIndex = d.nodeIndex → w.mode ≠ .writeOnly) : Exclusive (ds ++ [d]) := by
  refine List.pairwise_append.mpr ⟨h, List.pairwise_singleton .., ?_⟩
  intro w hw x hx hmode hnode
  rw [List.mem_singleton.mp hx] at hnode
  exact hd w hw hnode.symm hmode

/-- One inode has one writer at most. -/
theorem Exclusive.one_writer {ds : List Descriptor} (h : Exclusive ds) (n : Nat) :
    (ds.filter fun d => decide (d.nodeIndex = n ∧ d.mode = .writeOnly)).length ≤ 1 := by
  have hf : Exclusive (ds.filter fun d => decide (d.nodeIndex = n ∧ d.mode = .writeOnly)) :=
    h.filter _
  have hall : ∀ d ∈ ds.filter (fun d => decide (d.nodeIndex = n ∧ d.mode = .writeOnly)),
      d.nodeIndex = n ∧ d.mode = .writeOnly :=
    fun d hd => of_decide_eq_true (List.mem_filter.mp hd).2
  revert hf hall
  generalize ds.filter _ = ws
  intro hf hall
  match ws, hf with
  | [], _ => exact Nat.zero_le 1
  | [_], _ => exact Nat.le_refl 1
  | w :: w' :: ws, hf =>
      -- the first writer forbids the second one
      have hw := hall w (List.mem_cons_self ..)
      have hw' := hall w' (List.mem_cons_of_mem w (List.mem_cons_self ..))
      exact absurd (hw'.1.trans hw.1.symm)
        ((List.pairwise_cons.mp hf).1 w' (List.mem_cons_self ..) hw.2)

/-- The descriptors of a table, first opened first. -/
abbrev descriptors (s : State) : List Descriptor := s.descriptorTable.live.map Prod.snd

theorem Change.exclusive {s s' : State} {e : Event} (hw : WellLinked s)
    (hx : Exclusive (descriptors s)) (h : Change s e s') : Exclusive (descriptors s') := by
  have hmoved : ∀ {td : Table Descriptor} {l r b d offset},
      s.descriptorTable.Updated td l r b d { d with offset := offset } →
      Exclusive (td.live.map Prod.snd) := by
    intro td l r b d offset hd
    have hx' := hx
    unfold descriptors at hx'
    rw [hd.before, List.map_append, List.map_cons] at hx'
    rw [hd.after, List.map_append, List.map_cons]
    exact Exclusive.moved hx' rfl rfl
  cases h with
  | refused | created | touched | renamed | linked | unlinkedName | unlinkedFile => exact hx
  | symlinked _ _ _ hi hn _ _ _ hic hcopy =>
      have hmid : WellLinked { s with inodeTable := _, filenameTable := _ } :=
        ⟨hic.wf, hn.wf, hw.descs, hw.headed⟩
      rcases copyContents_ok hmid hic.after hcopy with
        ⟨_, _, _, _, _, _, _, _, _, _, _, rfl⟩ | ⟨-, rfl⟩
      · exact hx
      · exact hx
  | opened _ _ _ _ _ hwriter _ hd =>
      show Exclusive (Table.live _ |>.map Prod.snd)
      rw [hd.after, List.map_append]
      refine hx.snoc ?_
      intro w hw' hnode
      obtain ⟨p, hp, rfl⟩ := List.mem_map.mp hw'
      exact hwriter p hp hnode
  | closed _ _ _ hd =>
      show Exclusive (Table.live _ |>.map Prod.snd)
      unfold descriptors at hx
      rw [hd.before, List.map_append, List.map_cons] at hx
      rw [hd.after, List.map_append]
      exact hx.sublist ((List.sublist_cons_self ..).append_left _)
  | wrote _ _ _ _ _ _ _ _ hd => exact hmoved hd
  | read _ _ _ _ _ _ _ hd => exact hmoved hd
  | sought _ _ _ _ _ hd => exact hmoved hd

theorem exclusive_of_run {es : List Event} {s : State} (hr : ServiceRun es s) :
    Exclusive (descriptors s) :=
  (invariant_of_change (fun s => Exclusive (descriptors s)) List.Pairwise.nil
    (fun _ _ _ hw hx hc => hc.exclusive hw hx) hr).2

/-- In every state of every run the descriptor table can be read from its head
    pointer; each inode index has one writer at most; the writer is the last
    descriptor of its inode; and the next request opens no descriptor on an
    inode that has a writer. -/
theorem writer_exclusion {es : List Event} {s : State} (hr : ServiceRun es s) :
    ∃ ds, s.descriptorTable.values = .ok ds ∧
      (∀ n, (ds.filter fun d => decide (d.nodeIndex = n ∧ d.mode = .writeOnly)).length ≤ 1) ∧
      (∀ n before w after, ds = before ++ w :: after → w.nodeIndex = n → w.mode = .writeOnly →
        ∀ d ∈ after, d.nodeIndex ≠ n) ∧
      ∀ e s' d, Step s e s' → s'.descriptorTable.values = .ok (ds ++ [d]) →
        ∀ w ∈ ds, w.mode = .writeOnly → d.nodeIndex ≠ w.nodeIndex := by
  have hw := wellLinked_of_run hr
  have hx := exclusive_of_run hr
  refine ⟨descriptors s, hw.descs.values_eq hw.headed, hx.one_writer, ?_, ?_⟩
  · intro n before w after hds hnode hmode d hd
    rw [hds] at hx
    rw [← hnode]
    exact (List.pairwise_cons.mp (List.pairwise_append.mp hx).2.1).1 d hd hmode
  · intro e s' d hs hval w hwm hmode
    have hr' : ServiceRun (es ++ [e]) s' := .next hr hs
    have hw' := wellLinked_of_run hr'
    have hds : descriptors s' = descriptors s ++ [d] :=
      Except.ok.inj ((hw'.descs.values_eq hw'.headed).symm.trans hval)
    have hx' := exclusive_of_run hr'
    rw [hds] at hx'
    exact (List.pairwise_append.mp hx').2.2 w hwm d (List.mem_singleton.mpr rfl) hmode

/-- A reader and then a writer on one file. -/
def readerWriterRun : List Request :=
  [.create ⟨1, 1, 0o600, nameX⟩, .open ⟨1, 1, nameX, 0⟩, .open ⟨1, 1, nameX, 1⟩]

theorem writer_exclusion_readerWriter :
    ∃ ds, (replay readerWriterRun).descriptorTable.values = .ok ds ∧
      (∀ n, (ds.filter fun d => decide (d.nodeIndex = n ∧ d.mode = .writeOnly)).length ≤ 1) ∧
      (∀ n before w after, ds = before ++ w :: after → w.nodeIndex = n → w.mode = .writeOnly →
        ∀ d ∈ after, d.nodeIndex ≠ n) ∧
      ∀ e s' d, Step (replay readerWriterRun) e s' →
        s'.descriptorTable.values = .ok (ds ++ [d]) →
        ∀ w ∈ ds, w.mode = .writeOnly → d.nodeIndex ≠ w.nodeIndex := by
  have hret : returns readerWriterRun = true := by decide +kernel
  obtain ⟨es, hr⟩ := run_replay hret
  exact writer_exclusion hr

/-! ## Rights are checked when a descriptor is opened -/

/-- The permission bits of the class the caller belongs to: owner, group or
    others. -/
def classBits (file : OwnerGroupPerms) (user group : Nat) : Int :=
  if user = file.owner then file.perms / 0o100 % 8
  else if group = file.group then file.perms / 0o10 % 8
  else file.perms % 8

/-- The file's mode grants the caller the access an open mode stands for. -/
def Grants (mode : OpenMode) (file : OwnerGroupPerms) (user group : Nat) : Prop :=
  match mode with
  | .readOnly => classBits file user group / 4 % 2 = 1
  | .writeOnly => classBits file user group / 2 % 2 = 1

instance (mode : OpenMode) (file : OwnerGroupPerms) (user group : Nat) :
    Decidable (Grants mode file user group) :=
  match mode with
  | .readOnly => inferInstanceAs (Decidable (classBits file user group / 4 % 2 = 1))
  | .writeOnly => inferInstanceAs (Decidable (classBits file user group / 2 % 2 = 1))

/-- On a mode of nine bits the arithmetic of the read check looks at the read
    bit of the caller's class. -/
theorem grants_read {file : OwnerGroupPerms} {user group : Nat} (h0 : 0 ≤ file.perms)
    (h1 : file.perms ≤ 0o777) (h : readDenied user group file = false) :
    Grants .readOnly file user group := by
  unfold readDenied at h
  show classBits file user group / 4 % 2 = 1
  unfold classBits
  by_cases hu : user = file.owner
  · rw [if_pos hu] at h ⊢
    have := of_decide_eq_false h
    omega
  · rw [if_neg hu] at h ⊢
    by_cases hg : group = file.group
    · rw [if_pos hg] at h ⊢
      have := of_decide_eq_false h
      rw [Int.tmod_eq_emod_of_nonneg h0] at this
      omega
    · rw [if_neg hg] at h ⊢
      have := of_decide_eq_false h
      rw [Int.tmod_eq_emod_of_nonneg h0] at this
      omega

theorem grants_write {file : OwnerGroupPerms} {user group : Nat} (h0 : 0 ≤ file.perms)
    (h1 : file.perms ≤ 0o777) (h : writeDenied user group file = false) :
    Grants .writeOnly file user group := by
  unfold writeDenied at h
  show classBits file user group / 2 % 2 = 1
  unfold classBits
  by_cases hu : user = file.owner
  · rw [if_pos hu] at h ⊢
    simp only [Bool.or_eq_false_iff, Bool.and_eq_false_iff, decide_eq_false_iff_not] at h
    omega
  · rw [if_neg hu] at h ⊢
    by_cases hg : group = file.group
    · rw [if_pos hg] at h ⊢
      rw [Int.tmod_eq_emod_of_nonneg h0] at h
      simp only [Bool.or_eq_false_iff, Bool.and_eq_false_iff, decide_eq_false_iff_not] at h
      omega
    · rw [if_neg hg] at h ⊢
      rw [Int.tmod_eq_emod_of_nonneg h0] at h
      simp only [Bool.or_eq_false_iff, Bool.and_eq_false_iff, decide_eq_false_iff_not] at h
      omega

/-- `service_open` lets pass whom the mode grants what the flags ask for. -/
theorem grants_of_openStatus {args : OpenArgs} {mode : OpenMode} {file : OwnerGroupPerms}
    (hm : OpenMode.ofFlags args.flags = some mode)
    (h : openStatus .success args file = .success) (h0 : 0 ≤ file.perms)
    (h1 : file.perms ≤ 0o777) : Grants mode file args.fileOwner args.fileGroup := by
  unfold openStatus at h
  rw [hm] at h
  cases mode with
  | readOnly => exact grants_read h0 h1 (checkedStatus_success h).2
  | writeOnly => exact grants_write h0 h1 (checkedStatus_success h).2

/-- The request `o` in the state `t` opens the descriptor at `b`, on the inode
    `v` found at `a`. -/
structure Opens (t : State) (o : Event) (b : Nat) (d : Descriptor) (args : OpenArgs)
    (l r : List (Nat × Inode)) (a : Nat) (v : Inode) : Prop where
  request : o.request = .open args
  success : o.response.status = .success
  fresh : b = t.descriptorTable.heap.length
  mode : OpenMode.ofFlags args.flags = some d.mode
  inode : FoundInode t.inodeTable (nodeOf t.filenameTable args.filename) l r a v
  node : d.nodeIndex = v.index
  checked : openStatus .success args ⟨v.owner, v.ownerGroup, v.mode⟩ = .success

/-- A descriptor after a request was there before, at most moved, or was
    opened by the request. -/
theorem Change.desc_cases {s s' : State} {e : Event} (hw : WellLinked s) (h : Change s e s')
    {b : Nat} {d : Descriptor} (hd : (b, d) ∈ s'.descriptorTable.live) :
    (∃ d₀, (b, d₀) ∈ s.descriptorTable.live ∧ d₀.mode = d.mode ∧ d₀.nodeIndex = d.nodeIndex) ∨
      ∃ args l r a v, Opens s e b d args l r a v := by
  have hmoved : ∀ {td : Table Descriptor} {l r b' d' offset},
      s.descriptorTable.Updated td l r b' d' { d' with offset := offset } →
      (b, d) ∈ td.live →
      ∃ d₀, (b, d₀) ∈ s.descriptorTable.live ∧ d₀.mode = d.mode ∧ d₀.nodeIndex = d.nodeIndex := by
    intro td l r b' d' offset hup hmem
    rcases hup.mem.mp hmem with ⟨-, hold⟩ | he
    · exact ⟨d, hold, rfl, rfl⟩
    · cases he
      exact ⟨d', hup.mem_old, rfl, rfl⟩
  cases h with
  | refused | created | touched | renamed | linked | unlinkedName | unlinkedFile =>
      exact Or.inl ⟨d, hd, rfl, rfl⟩
  | symlinked _ _ _ hi hn _ _ _ hic hcopy =>
      have hmid : WellLinked { s with inodeTable := _, filenameTable := _ } :=
        ⟨hic.wf, hn.wf, hw.descs, hw.headed⟩
      rcases copyContents_ok hmid hic.after hcopy with
        ⟨_, _, _, _, _, _, _, _, _, _, _, rfl⟩ | ⟨-, rfl⟩
      · exact Or.inl ⟨d, hd, rfl, rfl⟩
      · exact Or.inl ⟨d, hd, rfl, rfl⟩
  | opened hreq hresp hmode hperm hv _ _ hpush =>
      rcases hpush.mem.mp hd with hold | he
      · exact Or.inl ⟨d, hold, rfl, rfl⟩
      · cases he
        exact Or.inr ⟨_, _, _, _, _, hreq, by rw [hresp], hpush.fresh, hmode, hv, rfl, hperm⟩
  | closed _ _ _ hrem => exact Or.inl ⟨d, (hrem.mem.mp hd).2, rfl, rfl⟩
  | wrote _ _ _ _ _ _ _ _ hup => exact Or.inl (hmoved hup hd)
  | read _ _ _ _ _ _ _ hup => exact Or.inl (hmoved hup hd)
  | sought _ _ _ _ _ hup => exact Or.inl (hmoved hup hd)

/-- The descriptor at `b` was opened by an earlier request of the run, when the
    mode of the file granted the opener what the descriptor is for. -/
def CheckedAtOpen (es : List Event) (s : State) (b : Nat) (d : Descriptor) : Prop :=
  ∃ pre o post t t' args l r a v, es = pre ++ o :: post ∧ ServiceRun pre t ∧ Step t o t' ∧
    Run Step t' post s ∧ Opens t o b d args l r a v ∧
    (0 ≤ v.mode → v.mode ≤ 0o777 →
      Grants d.mode ⟨v.owner, v.ownerGroup, v.mode⟩ args.fileOwner args.fileGroup)

theorem checkedAtOpen_of_run {es : List Event} {s : State} (hr : ServiceRun es s) :
    ∀ b d, (b, d) ∈ s.descriptorTable.live → CheckedAtOpen es s b d := by
  induction hr with
  | start =>
      intro b d hd
      exact nomatch hd
  | next hr hs ih =>
      intro b d hd
      have hw := wellLinked_of_run hr
      rcases (step_change hw hs).desc_cases hw hd with ⟨d₀, hd₀, hmode, hnode⟩ | ⟨args, l, r, a, v, ho⟩
      · obtain ⟨pre, o, post, t, t', args, l, r, a, v, rfl, hpre, hstep, hpost, ho, hg⟩ := ih b d₀ hd₀
        refine ⟨pre, o, post ++ [_], t, t', args, l, r, a, v, ?_, hpre, hstep, .next hpost hs,
          ⟨ho.request, ho.success, ho.fresh, ?_, ho.inode, ?_, ho.checked⟩, ?_⟩
        · rw [List.append_assoc, List.cons_append]
        · rw [← hmode]
          exact ho.mode
        · rw [← hnode]
          exact ho.node
        · rw [← hmode]
          exact hg
      · exact ⟨_, _, [], _, _, args, l, r, a, v, rfl, hr, hs, .start, ho,
          grants_of_openStatus ho.mode ho.checked⟩

/-- The request reads or writes through the descriptor number `fd`. -/
def Transfers (fd : Nat) : Request → Prop
  | .read args => args.fd = fd
  | .write args => args.fd = fd
  | _ => False

/-- Whoever reads or writes with success does so through a descriptor that was
    opened by someone whose rights were checked for the descriptor's mode, and
    writes only through one that was opened for writing. -/
theorem rights_checked_at_open {es : List Event} {s s' : State} {e : Event} {fd : Nat}
    (hr : ServiceRun es s) (hs : Step s e s') (hok : e.response.status = .success)
    (huse : Transfers fd e.request) :
    ∃ l r b d, FoundDesc s.descriptorTable fd l r b d ∧
      (∀ args, e.request = .write args → d.mode = .writeOnly) ∧ CheckedAtOpen es s b d := by
  have hw := wellLinked_of_run hr
  have hc := step_change hw hs
  have hopen := checkedAtOpen_of_run hr
  cases hc with
  | refused hst => exact absurd hok hst
  | wrote hreq _ hfd hmode =>
      rw [hreq] at huse
      cases huse
      exact ⟨_, _, _, _, hfd, fun _ _ => hmode, hopen _ _ hfd.mem⟩
  | read hreq hfd =>
      rw [hreq] at huse
      cases huse
      refine ⟨_, _, _, _, hfd, fun args h => ?_, hopen _ _ hfd.mem⟩
      rw [hreq] at h
      exact nomatch h
  | created hreq | renamed hreq | linked hreq | symlinked hreq | opened hreq | closed hreq
  | sought hreq | unlinkedName hreq | unlinkedFile hreq =>
      rw [hreq] at huse
      exact huse.elim
  | touched hreq =>
      rcases hreq with ⟨args, hreq⟩ | ⟨args, hreq⟩
      · rw [hreq] at huse
        exact huse.elim
      · rw [hreq] at huse
        exact huse.elim

/-- User 1 writes a byte to a private file and goes back to its start. -/
def privateRun : List Request :=
  [.create ⟨1, 1, 0o600, nameX⟩, .open ⟨1, 1, nameX, 1⟩, .write ⟨1, 1, 0, 1, [65]⟩,
    .seek ⟨1, 1, 0, 0⟩]

/-- User 2 reads through the descriptor of user 1. -/
def strangerRead : Request := .read ⟨2, 2, 0, 1⟩

theorem rights_checked_stranger : ∃ es l r b d,
    FoundDesc (replay privateRun).descriptorTable 0 l r b d ∧
      (∀ args, strangerRead = .write args → d.mode = .writeOnly) ∧
      CheckedAtOpen es (replay privateRun) b d := by
  have hret : returns (privateRun ++ [strangerRead]) = true := by decide +kernel
  obtain ⟨hret', hs⟩ := step_replay hret
  obtain ⟨es, hr⟩ := run_replay hret'
  have hok : (answer privateRun strangerRead).status = .success := by decide +kernel
  obtain ⟨l, r, b, d, h⟩ := rights_checked_at_open hr hs hok (show Transfers 0 strangerRead from rfl)
  exact ⟨es, l, r, b, d, h⟩

/-- The caller of a read is not asked for any right, and a descriptor that was
    opened for writing can be read. -/
theorem stranger_reads : ¬ ∀ (pre post : List Event) (o e : Event) (t t' s s' : State)
    (args : ReadArgs) (ld rd : List (Nat × Descriptor)) (b : Nat) (d : Descriptor)
    (oargs : OpenArgs) (l r : List (Nat × Inode)) (a : Nat) (v : Inode),
    ServiceRun pre t → Step t o t' → Run Step t' post s → Opens t o b d oargs l r a v →
    FoundDesc s.descriptorTable args.fd ld rd b d → Step s e s' → e.request = .read args →
    e.response.status = .success →
    Grants .readOnly ⟨v.owner, v.ownerGroup, v.mode⟩ args.fileOwner args.fileGroup := by
  intro hclaim
  have hret : returns (privateRun ++ [strangerRead]) = true := by decide +kernel
  obtain ⟨hret4, h5⟩ := step_replay hret
  obtain ⟨hret3, h4⟩ := step_replay (show returns (privateRun.take 3 ++ [.seek ⟨1, 1, 0, 0⟩]) = true
    from hret4)
  obtain ⟨hret2, h3⟩ := step_replay (show returns (privateRun.take 2 ++ [.write ⟨1, 1, 0, 1, [65]⟩])
    = true from hret3)
  obtain ⟨hret1, h2⟩ := step_replay (show returns (privateRun.take 1 ++ [.open ⟨1, 1, nameX, 1⟩])
    = true from hret2)
  obtain ⟨pre, hpre⟩ := run_replay hret1
  obtain ⟨es, hr⟩ := run_replay hret4
  have hfind : (replay privateRun).descriptorTable.find (fun d => d.desc = 0) = .ok (some 0) := by
    decide +kernel
  obtain ⟨ld, d, rd, hfd⟩ := (wellLinked_of_run hr).descs.find_some hfind
  have hdesc : ∀ p ∈ (replay privateRun).descriptorTable.live,
      p.2.mode = .writeOnly ∧ p.2.nodeIndex = 0 := by decide +kernel
  obtain ⟨hmode, hnode⟩ := hdesc _ hfd.mem
  have hinode : (replay (privateRun.take 1)).inodeTable.find (fun i => i.index =
      nodeOf (replay (privateRun.take 1)).filenameTable nameX) = .ok (some 0) := by decide +kernel
  obtain ⟨l, v, r, hv⟩ := (wellLinked_of_run hpre).inodes.find_some hinode
  have hfile : ∀ p ∈ (replay (privateRun.take 1)).inodeTable.live,
      p.2.index = 0 ∧ (⟨p.2.owner, p.2.ownerGroup, p.2.mode⟩ : OwnerGroupPerms) = ⟨1, 1, 0o600⟩ := by
    decide +kernel
  obtain ⟨hindex, hattrs⟩ := hfile _ hv.mem
  have hopens : Opens (replay (privateRun.take 1))
      ⟨stillEnv, .open ⟨1, 1, nameX, 1⟩, answer (privateRun.take 1) (.open ⟨1, 1, nameX, 1⟩)⟩
      0 d ⟨1, 1, nameX, 1⟩ l r 0 v := by
    refine ⟨rfl, by decide +kernel, by decide +kernel, ?_, hv, hnode.trans hindex.symm, ?_⟩
    · rw [hmode]
      rfl
    · rw [hattrs]
      decide
  have hgrant := hclaim pre _ _ _ _ _ _ _ ⟨2, 2, 0, 1⟩ ld rd 0 d _ l r 0 v hpre h2
    (.next (.next .start h3) h4) hopens hfd h5 rfl (by decide +kernel)
  rw [hattrs] at hgrant
  exact absurd hgrant (by decide)

end LibfsSpecs
