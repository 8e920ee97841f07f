import Libfs.MissingFiles
import Libfs.Namespace

/-! # Hard links that are taken back

    `create_hard_link` hangs an entry behind the others and counts it on the
    inode; `unlink_inode` on the new name finds the entry and takes both
    back.  The entry is never the head of its list and the count does not come
    to zero, so nothing else is touched.  But a name that is missing leads
    `create_hard_link` to the inode with the index zero. -/

namespace LibfsSpecs

open LibfsHeap LibfsStdio LibfsCommon LibfsInode LibfsOperations LibfsRun

/-! ## The searches before and after a link -/

section Searches

variable {s s' : State} {env : Env} {name newName : Filename} {l r : List (Nat × Inode)} {a : Nat}
  {v : Inode}

/-- A name with an entry resolves to the inode the entry has the index of. -/
theorem resolve_found (hw : WellLinked s) (hn : s.filenameTable.Intact) (hi : s.inodeTable.Intact)
    (hl : lookup s.filenameTable name ≠ none)
    (hf : FoundInode s.inodeTable (nodeOf s.filenameTable name) l r a v) :
    resolve s name = .ok (some a) := by
  obtain ⟨st, hget, hst⟩ := @getIndex_total s.filenameTable name hw.names hn
  unfold resolve
  rw [hget, ok_bind]
  show (if st = .success then _ else _) = _
  rw [if_pos (hst.mpr hl)]
  exact hw.inodes.find_of_found hi hf

theorem resolve_missing (hw : WellLinked s) (hn : s.filenameTable.Intact)
    (hmiss : lookup s.filenameTable name = none) : resolve s name = .ok none := by
  unfold resolve
  rw [getIndex_missing hw hn hmiss]
  rfl

/-- A link to an inode that is found, under a name that is free, succeeds. -/
theorem createHardLink_total (hw : WellLinked s) (hn : s.filenameTable.Intact)
    (hi : s.inodeTable.Intact) (hfree : lookup s.filenameTable newName = none)
    (hf : FoundInode s.inodeTable (nodeOf s.filenameTable name) l r a v) :
    ∃ s', createHardLink s env name newName = .ok (.success, s') := by
  obtain ⟨st, hget, -⟩ := @getIndex_total s.filenameTable name hw.names hn
  have hfind := hw.inodes.find_of_found hi hf
  obtain ⟨b, tn, hadd, -⟩ := addFilename_total hw.names hn hfree v.index
  obtain ⟨t, ht, -⟩ := hw.inodes.put_split hf.split (Inode.linked v (env.clock 0))
  refine ⟨{ s with inodeTable := t, filenameTable := tn }, ?_⟩
  unfold createHardLink
  rw [hget, ok_bind]
  simp only [if_neg st.code_ne_neg_one]
  rw [checkTaken_total hw.names hn, ok_bind, hfree]
  show (s.inodeTable.find _ >>= _) = _
  rw [hfind, ok_bind]
  show (s.inodeTable.get a >>= _) = _
  rw [hf.get, ok_bind, hadd, ok_bind]
  show (s.inodeTable.put a (Inode.linked v (env.clock 0)) >>= _) = _
  rw [ht]
  rfl

/-- An unlink that leaves the inode a count: the inode is assigned to and the
    entry is unhooked. -/
theorem unlinkInode_kept (hw : WellLinked s) (hn : s.filenameTable.Intact)
    (hi : s.inodeTable.Intact) {ln rn : List (Nat × FilenameInode)} {b : Nat} {x : FilenameInode}
    (hx : s.filenameTable.Found (fun e => e.filename = name) ln rn b x)
    (hf : FoundInode s.inodeTable x.nodeIndex l r a v)
    (hcount : (Inode.unlinked v (env.clock 0)).refCount ≠ 0) {t : Table Inode}
    (ht : s.inodeTable.put a (Inode.unlinked v (env.clock 0)) = .ok t) {tn : Table FilenameInode}
    (htn : s.filenameTable.detach b = .ok tn) :
    unlinkInode s env name
      = .ok (.success, { s with inodeTable := t, filenameTable := tn }) := by
  have hl : lookup s.filenameTable name = some x.nodeIndex := lookup_of_found hx
  have hnode : nodeOf s.filenameTable name = x.nodeIndex := nodeOf_found hx
  obtain ⟨st, hget, hst⟩ := @getIndex_total s.filenameTable name hw.names hn
  obtain rfl : st = .success := hst.mpr (by rw [hl]; exact Option.some_ne_none _)
  have hremove : removeFilenameFromTable s.filenameTable name = .ok (.success, tn) := by
    unfold removeFilenameFromTable
    rw [hw.names.find_of_found hn hx, ok_bind]
    show (s.filenameTable.detach b >>= _) = _
    rw [htn]
    rfl
  unfold unlinkInode
  rw [hget, ok_bind, hnode]
  show (s.inodeTable.find _ >>= _) = _
  rw [hw.inodes.find_of_found hi hf, ok_bind]
  show (s.inodeTable.get a >>= _) = _
  rw [hf.get, ok_bind]
  show (s.inodeTable.put a (Inode.unlinked v (env.clock 0)) >>= _) = _
  rw [ht, ok_bind]
  show (if (Inode.unlinked v (env.clock 0)).refCount = 0 then _ else _) = _
  rw [if_neg hcount, hremove]
  rfl

/-- The entry of a new name is found behind all others. -/
theorem found_pushed {t t' : Table FilenameInode} {b n : Nat} (hp : t.Pushed t' b ⟨n, newName⟩)
    (hfree : lookup t newName = none) :
    t'.Found (fun e => e.filename = newName) t.live [] b ⟨n, newName⟩ where
  split := hp.after
  passes := decide_eq_true rfl
  first := fun p hm => decide_eq_false (lookup_eq_none.mp hfree p hm)

/-- The other names are looked up as before. -/
theorem lookup_pushed {t t' : Table FilenameInode} {b n k : Nat}
    (hp : t.Pushed t' b ⟨n, newName⟩) (hl : lookup t name = some k) : lookup t' name = some k := by
  unfold lookup at hl ⊢
  obtain ⟨p, hfind, rfl⟩ := Option.map_eq_some_iff.mp hl
  rw [hp.after, List.find?_append, hfind]
  rfl

end Searches

/-! ## A link and an unlink -/

/-- The states the two requests are compared in: all lists can be walked, no
    two names or indices are equal, and every count is at least one. -/
structure Orderly (s : State) : Prop where
  linked : WellLinked s
  inodes : s.inodeTable.Intact
  entries : s.filenameTable.Intact
  distinct : (indices s.inodeTable).Nodup
  unique : (names s.filenameTable).Nodup
  counted : ∀ p ∈ s.inodeTable.live, 1 ≤ p.2.refCount ∧ p.2.refCount < 4294967296

/-- Everything is as it was, but for a freed block of memory and for two times
    of the inode `v` at `a`. -/
structure Restored (s s' : State) (a : Nat) (v : Inode) : Prop where
  entries : s'.filenameTable.live = s.filenameTable.live
  links : s'.filenameTable = ⟨s.filenameTable.heap ++ [none], s.filenameTable.head⟩
  inodes : ∃ x y, s.inodeTable.put a { v with stat.stAtim := x, stat.stCtim := y }
    = .ok s'.inodeTable
  blocks : s'.blocks = s.blocks
  descriptors : s'.descriptorTable = s.descriptorTable

/-- If the link succeeds, both names resolve to the inode of the first one, and
    an unlink of the second one succeeds and restores the state. -/
def LinkCancels (s : State) (env : Env) (name newName : Filename) : Prop :=
  ∀ s₁, createHardLink s env name newName = .ok (.success, s₁) →
    ∃ a v, s.inodeTable.get a = .ok v ∧ resolve s name = .ok (some a) ∧
      resolve s₁ name = .ok (some a) ∧ resolve s₁ newName = .ok (some a) ∧
      ∀ env', ∃ s₂, unlinkInode s₁ env' newName = .ok (.success, s₂) ∧ Restored s s₂ a v

/-- The count goes up and down again, across the end of the word as well. -/
theorem unlinked_linked (v : Inode) (x y : Timespec) (hlt : v.refCount < 4294967296) :
    Inode.unlinked (Inode.linked v x) y = { v with stat.stAtim := y, stat.stCtim := y } := by
  have hcount : u32 (u32 (v.refCount + 1) + 4294967295) = v.refCount := by
    unfold u32
    omega
  show { v with
    stat.stAtim := y
    stat.stCtim := y
    refCount := u32 (u32 (v.refCount + 1) + 4294967295) } = _
  rw [hcount]

section Links

variable {s : State} {name newName : Filename}

/-- A link to a name that is there is undone. -/
theorem Orderly.link_cancels (h : Orderly s) (env : Env)
    (hknown : lookup s.filenameTable name ≠ none) : LinkCancels s env name newName := by
  intro s₁ hlink
  have hw := h.linked
  rcases createHardLink_ok hw hlink with
    ⟨-, hfree, l, r, a, v, t, tn, b, hf, hup, hpush, rfl⟩ | ⟨hne, -⟩
  · obtain ⟨k, hk⟩ := Option.ne_none_iff_exists'.mp hknown
    have hkn : nodeOf s.filenameTable name = k := nodeOf_of_lookup hk
    have hw₁ : WellLinked { s with inodeTable := t, filenameTable := tn } :=
      ⟨hup.wf, hpush.wf, hw.descs, hw.headed⟩
    have hi₁ : t.Intact := hup.intact.mpr h.inodes
    -- the inode is still the first one with its index
    have hf₁ : FoundInode t (nodeOf s.filenameTable name) l r a (Inode.linked v (env.clock 0)) :=
      hf.updated hup hf.passes
    have hk₁ := lookup_pushed hpush hk
    have hname₁ : FoundInode t (nodeOf tn name) l r a (Inode.linked v (env.clock 0)) := by
      rw [nodeOf_of_lookup hk₁, ← hkn]
      exact hf₁
    have hx := found_pushed hpush hfree
    have hnew₁ : FoundInode t v.index l r a (Inode.linked v (env.clock 0)) := by
      rw [hf.index]
      exact hf₁
    refine ⟨a, v, hf.get, resolve_found hw h.entries h.inodes hknown hf,
      resolve_found hw₁ hpush.intact hi₁ (by rw [hk₁]; exact Option.some_ne_none _) hname₁,
      resolve_found hw₁ hpush.intact hi₁ (by rw [lookup_of_found hx]; exact Option.some_ne_none _)
        (by rw [nodeOf_found hx]; exact hnew₁), ?_⟩
    intro env'
    obtain ⟨hpos, hlt⟩ := h.counted _ hf.mem
    have hback := unlinked_linked v (env.clock 0) (env'.clock 0) hlt
    -- the entry is not the head of the list, since the first name has one too
    have hlive : s.filenameTable.live ≠ [] := by
      obtain ⟨p, hp, -⟩ := lookup_mem hk
      exact List.ne_nil_of_mem hp
    obtain ⟨tn', hdet, hsame, htn⟩ := hpush.detached hw.names hlive
    obtain ⟨t', ht', hup'⟩ := hup.wf.put_split hup.after
      (Inode.unlinked (Inode.linked v (env.clock 0)) (env'.clock 0))
    have hcount : (Inode.unlinked (Inode.linked v (env.clock 0)) (env'.clock 0)).refCount ≠ 0 := by
      rw [hback]
      exact Nat.ne_of_gt hpos
    refine ⟨_, unlinkInode_kept hw₁ hpush.intact hi₁ hx hnew₁ hcount ht' hdet, hsame, htn, ?_,
      rfl, rfl⟩
    -- both assignments together are one of the two times
    have htwice := hup.trans hup'
    rw [hback] at htwice
    obtain ⟨t₂, ht₂, hup₂⟩ := hw.inodes.put_split hf.split
      { v with stat.stAtim := env'.clock 0, stat.stCtim := env'.clock 0 }
    refine ⟨env'.clock 0, env'.clock 0, ?_⟩
    rw [ht₂, htwice.unique hup₂]
  · exact absurd rfl hne

/-- The links that cancel: the name they are for is there; or they do not
    succeed, since the new name is taken or no inode has the index zero. -/
def KnownName (s : State) (name newName : Filename) : Prop :=
  lookup s.filenameTable name ≠ none ∨ lookup s.filenameTable newName ≠ none ∨
    ∀ p ∈ s.inodeTable.live, p.2.index ≠ 0

/-- In every orderly state and for all names, an unlink undoes a link exactly if
    the link is not one for a missing name that succeeds. -/
theorem hard_link_undone_iff (h : Orderly s) (env : Env) (name newName : Filename) :
    LinkCancels s env name newName ↔ KnownName s name newName := by
  have hw := h.linked
  constructor
  · intro hcancels
    by_contra hcond
    unfold KnownName at hcond
    simp only [not_or, not_not, not_forall] at hcond
    obtain ⟨hmiss, hfree, p, hp, hzero⟩ := hcond
    have hnode := nodeOf_missing hmiss
    rcases find_cases hw.inodes h.inodes fun i => decide (i.index = 0) with
      ⟨l, r, a, v, hf, -⟩ | ⟨hnone, -⟩
    · -- the link goes to the inode with the index zero, the name to none
      obtain ⟨s₁, hlink⟩ := @createHardLink_total s env name newName l r a v hw h.entries h.inodes
        hfree (by rw [hnode]; exact hf)
      obtain ⟨a', -, -, hname, -⟩ := hcancels s₁ hlink
      rw [resolve_missing hw h.entries hmiss] at hname
      exact nomatch hname
    · exact absurd hzero (of_decide_eq_false (hnone p hp))
  · intro hcond
    by_cases hknown : lookup s.filenameTable name = none
    · intro s₁ hlink
      exfalso
      have hnode := nodeOf_missing hknown
      rcases createHardLink_ok hw hlink with
        ⟨-, hfree, l, r, a, v, t, tn, b, hf, -⟩ | ⟨hne, -⟩
      · rcases hcond with hname | htaken | hnone
        · exact hname hknown
        · exact htaken hfree
        · exact hnone _ hf.mem (hf.index.trans hnode)
      · exact absurd rfl hne
    · exact h.link_cancels env hknown

end Links

/-- The states of runs that keep the heads are orderly. -/
theorem orderly_of_run {es : List Event} {s : State}
    (hr : Run (guarded KeepsHeads Step) State.init es s) : Orderly s := by
  have hagree := agree_of_run hr
  refine ⟨wellLinked_of_run hr.unguard, hagree.inodes, hagree.entries, hagree.distinct,
    hagree.unique, fun p hp => ⟨hagree.pos hp, hagree.bounded p hp⟩⟩

theorem orderly_twoFiles : Orderly (replay twoFilesRun) := by
  obtain ⟨es, hr⟩ := guarded_replay twoFilesRun (by decide +kernel) fun k hk => twoFiles_keeps k hk _
  exact orderly_of_run hr

/-- With two files there, a link to the first one under a third name succeeds
    and cancels. -/
theorem hard_link_undone_twoFiles :
    (createHardLink (replay twoFilesRun) stillEnv nameX nameB).toOption.map Prod.fst
        = some .success ∧
      (LinkCancels (replay twoFilesRun) stillEnv nameX nameB ↔
        KnownName (replay twoFilesRun) nameX nameB) :=
  ⟨by decide +kernel, hard_link_undone_iff orderly_twoFiles stillEnv nameX nameB⟩

/-- A link to a name that is missing succeeds, and the new name is one of the
    first file. -/
theorem missing_name_linked : ¬ ∀ (s : State) (env : Env) (name newName : Filename), Orderly s →
    LinkCancels s env name newName := by
  intro hclaim
  have h := orderly_twoFiles
  let newName : Filename := ⟨[99], by decide, by decide⟩
  have hmiss : lookup (replay twoFilesRun).filenameTable nameB = none := by decide +kernel
  have hdone : ((createHardLink (replay twoFilesRun) stillEnv nameB newName).toOption.map Prod.fst)
      = some .success := by decide +kernel
  obtain ⟨⟨st, s₁⟩, hlink, hst⟩ := Option.map_eq_some_iff.mp hdone
  obtain rfl : st = .success := hst
  have hok : createHardLink (replay twoFilesRun) stillEnv nameB newName = .ok (.success, s₁) := by
    cases hcall : createHardLink (replay twoFilesRun) stillEnv nameB newName with
    | error stop =>
        rw [hcall] at hlink
        exact nomatch hlink
    | ok p =>
        rw [hcall] at hlink
        exact congrArg _ (Option.some.inj hlink)
  obtain ⟨a, v, -, hname, -⟩ := hclaim _ stillEnv nameB newName h s₁ hok
  rw [resolve_missing h.linked h.entries hmiss] at hname
  exact nomatch hname

end LibfsSpecs
