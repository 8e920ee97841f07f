import Libfs.Descriptors

/-! # A descriptor and its file

    A descriptor names its inode by index, and the index of a new inode is
    one more than that of the last inode still there.  An index whose inode is
    gone can therefore be issued again, and a descriptor that is still open
    then works on the new file.  In runs where this does not happen a
    descriptor stays with its file.

    A file is known by the address of its inode, which is never used again. -/

namespace LibfsSpecs

open LibfsHeap LibfsStdio LibfsCommon LibfsInode LibfsOperations LibfsRun

/-- The request opens the file of its name unless it does not return. -/
def Openable (s : State) (args : OpenArgs) : Prop :=
  ∃ l r a v, FoundInode s.inodeTable (nodeOf s.filenameTable args.filename) l r a v ∧
    openStatus .success args ⟨v.owner, v.ownerGroup, v.mode⟩ = .success ∧
    ∀ p ∈ s.descriptorTable.live, p.2.nodeIndex = v.index → p.2.mode ≠ .writeOnly

/-- No index is issued that an open descriptor names, and no file is opened
    under an index that two live inodes share. -/
def IssuesFresh (s : State) (e : Event) : Prop :=
  (AddsInode s e.request → ∀ p ∈ s.descriptorTable.live, p.2.nodeIndex ≠ nextIndex s.inodeTable) ∧
    ∀ args, e.request = .open args → Openable s args →
      ∀ p ∈ s.inodeTable.live, ∀ q ∈ s.inodeTable.live,
        p.2.index = nodeOf s.filenameTable args.filename →
        q.2.index = nodeOf s.filenameTable args.filename → p = q

/-- The request reads, writes or seeks through the descriptor number `fd`. -/
def UsesFd (fd : Nat) : Request → Prop
  | .read args => args.fd = fd
  | .write args => args.fd = fd
  | .seek args => args.fd = fd
  | _ => False

/-- The request acts on the file whose inode is at `a`, and on no other. -/
structure ActsOn (s : State) (e : Event) (s' : State) (a : Nat) (d : Descriptor) : Prop where
  /-- It succeeds only while the file is there. -/
  live : e.response.status = .success → ∃ v, (a, v) ∈ s.inodeTable.live ∧ v.index = d.nodeIndex
  /-- Once the file is gone it fails and changes nothing. -/
  gone : (∀ v, (a, v) ∉ s.inodeTable.live) → e.response.status ≠ .success ∧ s' = s
  /-- No other inode is changed, removed or added. -/
  others : ∀ p : Nat × Inode, p.1 ≠ a → (p ∈ s'.inodeTable.live ↔ p ∈ s.inodeTable.live)
  /-- No byte of another file is changed. -/
  bytes : ∀ p ∈ s.inodeTable.live, p.1 ≠ a → ∀ pos,
    fileByte (BlockStore.file s'.blocks) p.2.dataBlocks pos
      = fileByte (BlockStore.file s.blocks) p.2.dataBlocks pos
  /-- What a read delivers are the bytes of the file. -/
  reads : ∀ args v, e.request = .read args → e.response.status = .success →
    (a, v) ∈ s.inodeTable.live → ∃ buf : Bytes, e.response.payload = .bytes buf ∧
      buf.length = args.size ∧ ∀ j, j < args.size →
        buf[j]? = fileByte (BlockStore.file s.blocks) v.dataBlocks (d.offset + j)
  /-- A write is `write_inode` on the inode of the file. -/
  writes : ∀ args v, e.request = .write args → e.response.status = .success →
    (a, v) ∈ s.inodeTable.live → ∃ data v' offset, slice args.data 0 args.size = .ok data ∧
      writeInode s.blocks (Inode.written v (e.env.clock 0)) data d.offset args.size
        = .ok (.success, v', offset, s'.blocks) ∧ (a, v') ∈ s'.inodeTable.live
  /-- A seek is bounded by the size of the file. -/
  seeks : ∀ args v, e.request = .seek args → e.response.status = .success →
    (a, v) ∈ s.inodeTable.live → (args.offset : Int) ≤ v.stat.stSize

/-! ## Which inodes carry an index -/

/-- An inode after a request carries the index it had, or it is a new one with
    the next index. -/
theorem Change.inode_cases {s s' : State} {e : Event} (hw : WellLinked s)
    (hs : Sound s.inodeTable s.blocks) (h : Change s e s') {c : Nat} {w : Inode}
    (hmem : (c, w) ∈ s'.inodeTable.live) :
    (∃ w₀, (c, w₀) ∈ s.inodeTable.live ∧ w₀.index = w.index) ∨
      (AddsInode s e.request ∧ w.index = nextIndex s.inodeTable) := by
  -- an update that keeps the index, applied to nodes that are fine already
  have hkeep : ∀ {t t' : Table Inode} {l r : List (Nat × Inode)} {a : Nat} {v v' : Inode},
      t.Updated t' l r a v v' → v'.index = v.index → ∀ {c w}, (c, w) ∈ t'.live →
      ∃ w₀, (c, w₀) ∈ t.live ∧ w₀.index = w.index := by
    intro t t' l r a v v' hup hidx c w hm
    rcases hup.mem.mp hm with ⟨-, hold⟩ | he
    · exact ⟨w, hold, rfl⟩
    · cases he
      exact ⟨v, hup.mem_old, hidx.symm⟩
  have hnew : ∀ {t : Table Inode} {a : Nat} {v : Inode}, AddsInode s e.request →
      s.inodeTable.Pushed t a v → v.index = nextIndex s.inodeTable → ∀ {c w}, (c, w) ∈ t.live →
      (∃ w₀, (c, w₀) ∈ s.inodeTable.live ∧ w₀.index = w.index) ∨
        (AddsInode s e.request ∧ w.index = nextIndex s.inodeTable) := by
    intro t a v hadds hp hidx c w hm
    rcases hp.mem.mp hm with hold | he
    · exact Or.inl ⟨w, hold, rfl⟩
    · cases he
      exact Or.inr ⟨hadds, hidx⟩
  cases h with
  | refused | renamed | closed | sought => exact Or.inl ⟨w, hmem, rfl⟩
  | created hreq _ hfree hi =>
      exact hnew (by rw [hreq]; exact hfree) hi rfl hmem
  | touched _ _ hi hsame => exact Or.inl (hkeep hi hsame.index hmem)
  | linked _ _ _ _ hi => exact Or.inl (hkeep hi rfl hmem)
  | @symlinked _ _ _ _ _ _ _ _ _ _ _ _ _ _ t₃ _ _ hadds _ hi hn _ hip _ hic hcopy =>
      have hs3 := ((hs.pushed hi rfl).touched hip ⟨rfl, rfl, rfl⟩).touched hic ⟨rfl, rfl, rfl⟩
      have hmid : WellLinked { s with inodeTable := _, filenameTable := _ } :=
        ⟨hic.wf, hn.wf, hw.descs, hw.headed⟩
      have hthree : ∀ {c : Nat} {w : Inode}, (c, w) ∈ t₃.live →
          (∃ w₀, (c, w₀) ∈ s.inodeTable.live ∧ w₀.index = w.index) ∨
            (AddsInode s e.request ∧ w.index = nextIndex s.inodeTable) := by
        intro c w hm
        obtain ⟨w₂, hw₂, h₂⟩ := hkeep hic rfl hm
        obtain ⟨w₁, hw₁, h₁⟩ := hkeep hip rfl hw₂
        rw [← h₂, ← h₁]
        exact hnew hadds hi rfl hw₁
      rcases copyContents_ok hmid hic.after hcopy with
        ⟨_, _, _, _, _, _, _, hbuf, hwr, -, hup, rfl⟩ | ⟨-, rfl⟩
      · obtain ⟨p, ks, hwrote, -⟩ := wrote_of_writeInode hbuf hwr (hs3.blocksInside hup.mem_old)
        obtain ⟨w₃, hw₃, h₃⟩ := hkeep hup hwrote.index hmem
        rw [← h₃]
        exact hthree hw₃
      · exact hthree hmem
  | opened _ _ _ _ _ _ hi => exact Or.inl (hkeep hi rfl hmem)
  | wrote _ hdata _ _ hv hwr _ hi =>
      have hin := hs.blocksInside hv.mem
      obtain ⟨p, ks, hwrote, -⟩ :=
        wrote_of_writeInode (slice_all hdata).ge hwr (hin.congr rfl)
      exact Or.inl (hkeep hi hwrote.index hmem)
  | read _ _ _ _ _ _ hi => exact Or.inl (hkeep hi rfl hmem)
  | unlinkedName _ _ _ _ _ hi => exact Or.inl (hkeep hi rfl hmem)
  | unlinkedFile _ _ _ _ _ hi _ hi' => exact Or.inl (hkeep hi rfl (hi'.mem.mp hmem).2)

/-- Descriptor nodes are never taken back. -/
theorem Change.desc_length {s s' : State} {e : Event} (hw : WellLinked s) (h : Change s e s') :
    s.descriptorTable.heap.length ≤ s'.descriptorTable.heap.length := by
  cases h with
  | refused | created | touched | renamed | linked | unlinkedName | unlinkedFile =>
      exact Nat.le_refl _
  | symlinked _ _ _ _ hn _ _ _ hic hcopy =>
      have hmid : WellLinked { s with inodeTable := _, filenameTable := _ } :=
        ⟨hic.wf, hn.wf, hw.descs, hw.headed⟩
      rcases copyContents_ok hmid hic.after hcopy with
        ⟨_, _, _, _, _, _, _, _, _, _, _, rfl⟩ | ⟨-, rfl⟩
      · exact Nat.le_refl _
      · exact Nat.le_refl _
  | opened _ _ _ _ _ _ _ hd => exact Nat.le_of_lt (by rw [hd.length]; exact Nat.lt_succ_self _)
  | closed _ _ _ hd => exact Nat.le_of_eq hd.length.symm
  | wrote _ _ _ _ _ _ _ _ hd => exact Nat.le_of_eq hd.length.symm
  | read _ _ _ _ _ _ _ hd => exact Nat.le_of_eq hd.length.symm
  | sought _ _ _ _ _ hd => exact Nat.le_of_eq hd.length.symm

/-! ## The descriptor and its file stay together -/

/-- The descriptor at `b` names the index `n`, and while it is open no inode
    but the one at `a` carries that index. -/
structure Bound (s : State) (b a n : Nat) : Prop where
  old : b < s.descriptorTable.heap.length
  node : ∀ d, (b, d) ∈ s.descriptorTable.live → d.nodeIndex = n
  only : (∃ d, (b, d) ∈ s.descriptorTable.live) →
    ∀ c w, (c, w) ∈ s.inodeTable.live → w.index = n → c = a

/-- A request that issues no index again leaves them together. -/
theorem Bound.change {s s' : State} {e : Event} {b a n : Nat} (hw : WellLinked s)
    (hs : Sound s.inodeTable s.blocks) (hb : Bound s b a n) (hf : IssuesFresh s e)
    (h : Change s e s') : Bound s' b a n := by
  have hwas : ∀ d, (b, d) ∈ s'.descriptorTable.live →
      ∃ d₀, (b, d₀) ∈ s.descriptorTable.live ∧ d₀.nodeIndex = d.nodeIndex := by
    intro d hd
    rcases h.desc_cases hw hd with ⟨d₀, hd₀, -, hnode⟩ | ⟨args, l, r, c, v, ho⟩
    · exact ⟨d₀, hd₀, hnode⟩
    · exact absurd ho.fresh (Nat.ne_of_lt hb.old)
  refine ⟨Nat.lt_of_lt_of_le hb.old (h.desc_length hw), ?_, ?_⟩
  · intro d hd
    obtain ⟨d₀, hd₀, hnode⟩ := hwas d hd
    rw [← hnode]
    exact hb.node d₀ hd₀
  · rintro ⟨d, hd⟩ c w hmem hn
    obtain ⟨d₀, hd₀, -⟩ := hwas d hd
    rcases h.inode_cases hw hs hmem with ⟨w₀, hw₀, hidx⟩ | ⟨hadds, hidx⟩
    · exact hb.only ⟨d₀, hd₀⟩ c w₀ hw₀ (hidx.trans hn)
    · -- the new index would be the one the descriptor names
      exact absurd ((hb.node d₀ hd₀).trans (hn.symm.trans hidx)) (hf.1 hadds (b, d₀) hd₀)

/-- Opening a file binds the new descriptor to it. -/
theorem Bound.opened {t t' : State} {o : Event} {b a : Nat} {d : Descriptor} {args : OpenArgs}
    {l r : List (Nat × Inode)} {v : Inode} (hw : WellLinked t)
    (hs : Sound t.inodeTable t.blocks) (hf : IssuesFresh t o)
    (ho : Opens t o b d args l r a v) (h : Change t o t') : Bound t' b a v.index := by
  have hreq := ho.request
  cases h with
  | refused hst => exact absurd ho.success hst
  | opened hreq' hresp hmode hperm hv hwriter hi hd =>
      rw [hreq] at hreq'
      cases hreq'
      obtain ⟨-, -, rfl, rfl⟩ := ho.inode.unique hv
      constructor
      case old =>
        show b < (Table.heap _).length
        rw [hd.length, ho.fresh]
        exact Nat.lt_succ_self _
      case node =>
        intro d' hd'
        rcases hd.mem.mp hd' with hold | he
        · exact absurd (ho.fresh.trans hd.fresh.symm) (hd.not_mem hold)
        · rw [(Prod.mk.inj he).2]
      case only =>
        rintro - c w hmem hn
        rcases (Change.opened hreq hresp hmode hperm hv hwriter hi hd).inode_cases hw hs hmem with
          ⟨w₀, hw₀, hidx⟩ | ⟨hadds, -⟩
        · have hindex := FoundInode.index hv
          have hpair := hf.2 args hreq ⟨_, _, _, _, hv, hperm, hwriter⟩ (c, w₀) hw₀ _ hv.mem
            ((hidx.trans hn).trans hindex) hindex
          exact (Prod.mk.inj hpair).1
        · rw [hreq] at hadds
          exact hadds.elim
  | created hreq' | renamed hreq' | linked hreq' | symlinked hreq' | closed hreq' | wrote hreq'
  | read hreq' | sought hreq' | unlinkedName hreq' | unlinkedFile hreq' =>
      rw [hreq] at hreq'
      exact nomatch hreq'
  | touched hreq' =>
      rcases hreq' with ⟨args', hreq'⟩ | ⟨args', hreq'⟩
      · rw [hreq] at hreq'
        exact nomatch hreq'
      · rw [hreq] at hreq'
        exact nomatch hreq'

/-! ## What the descriptor is used for -/

/-- The search for the index of a bound descriptor can only come to the file. -/
theorem Bound.found {s : State} {b a n c : Nat} {d : Descriptor} {l r : List (Nat × Inode)}
    {w : Inode} (hb : Bound s b a n) (hd : (b, d) ∈ s.descriptorTable.live)
    (hw : FoundInode s.inodeTable d.nodeIndex l r c w) : c = a :=
  hb.only ⟨d, hd⟩ c w hw.mem ((FoundInode.index hw).trans (hb.node d hd))

/-- Reading, writing and seeking through a bound descriptor. -/
theorem Bound.actsOn {s s' : State} {e : Event} {b a n fd : Nat} {d : Descriptor}
    {ld rd : List (Nat × Descriptor)} (hs : Sound s.inodeTable s.blocks)
    (hb : Bound s b a n) (hfd : FoundDesc s.descriptorTable fd ld rd b d)
    (huse : UsesFd fd e.request) (h : Change s e s') : ActsOn s e s' a d := by
  cases h with
  | refused hst =>
      exact ⟨fun hok => absurd hok hst, fun _ => ⟨hst, rfl⟩, fun _ _ => Iff.rfl,
        fun _ _ _ _ => rfl, fun _ _ _ hok => absurd hok hst, fun _ _ _ hok => absurd hok hst,
        fun _ _ _ hok => absurd hok hst⟩
  | wrote hreq hdata hfd' hmode hv hwr hst hi hd =>
      rw [hreq] at huse
      cases huse
      obtain ⟨-, -, rfl, rfl⟩ := hfd.unique hfd'
      obtain rfl := hb.found hfd.mem hv
      have hin := hs.blocksInside hv.mem
      obtain ⟨p, ks, hwrote, -⟩ :=
        wrote_of_writeInode (slice_all hdata).ge hwr (hin.congr rfl)
      constructor
      case live =>
        intro _
        exact ⟨_, hv.mem, FoundInode.index hv⟩
      case gone =>
        intro hgone
        exact absurd hv.mem (hgone _)
      case others => exact fun p hne => hi.others hne
      case bytes =>
        intro q hq hne pos
        exact bytes_of_others hs hi.replaced hwrote rfl hq hne pos
      case reads =>
        intro args v hr
        rw [hreq] at hr
        exact nomatch hr
      case writes =>
        intro args v hr hok hvm
        rw [hreq] at hr
        cases hr
        rw [Heap.live_unique hvm hv.mem]
        rw [hst.mp hok] at hwr
        exact ⟨_, _, _, hdata, hwr, hi.mem.mpr (Or.inr rfl)⟩
      case seeks =>
        intro args v hr
        rw [hreq] at hr
        exact nomatch hr
  | read hreq hfd' hv hrd hst hpay hi hd =>
      rw [hreq] at huse
      cases huse
      obtain ⟨-, -, rfl, rfl⟩ := hfd.unique hfd'
      obtain rfl := hb.found hfd.mem hv
      constructor
      case live =>
        intro _
        exact ⟨_, hv.mem, FoundInode.index hv⟩
      case gone =>
        intro hgone
        exact absurd hv.mem (hgone _)
      case others => exact fun p hne => hi.others hne
      case bytes =>
        intro _ _ _ _
        rfl
      case reads =>
        intro args v hr hok hvm
        rw [hreq] at hr
        cases hr
        rw [hst.mp hok] at hrd
        obtain ⟨-, hlen, hbytes⟩ := readInode_ok hrd ((hs.blocksInside hv.mem).congr rfl)
        refine ⟨_, hpay hok, ?_, ?_⟩
        · rw [hlen, Env.malloc_length]
        · intro j hj
          rw [hbytes j, if_pos hj, Heap.live_unique hvm hv.mem]
          rfl
      case writes =>
        intro args v hr
        rw [hreq] at hr
        exact nomatch hr
      case seeks =>
        intro args v hr
        rw [hreq] at hr
        exact nomatch hr
  | sought hreq hst hfd' hv hsize hd =>
      rw [hreq] at huse
      cases huse
      obtain ⟨-, -, rfl, rfl⟩ := hfd.unique hfd'
      obtain rfl := hb.found hfd.mem hv
      constructor
      case live =>
        intro _
        exact ⟨_, hv.mem, FoundInode.index hv⟩
      case gone =>
        intro hgone
        exact absurd hv.mem (hgone _)
      case others =>
        intro _ _
        rfl
      case bytes =>
        intro _ _ _ _
        rfl
      case reads =>
        intro args v hr
        rw [hreq] at hr
        exact nomatch hr
      case writes =>
        intro args v hr
        rw [hreq] at hr
        exact nomatch hr
      case seeks =>
        intro args v hr _ hvm
        rw [hreq] at hr
        cases hr
        rw [Heap.live_unique hvm hv.mem]
        exact hsize
  | created hreq | renamed hreq | linked hreq | symlinked hreq | opened hreq | closed hreq
  | unlinkedName hreq | unlinkedFile hreq =>
      rw [hreq] at huse
      exact huse.elim
  | touched hreq =>
      rcases hreq with ⟨args, hreq⟩ | ⟨args, hreq⟩
      · rw [hreq] at huse
        exact huse.elim
      · rw [hreq] at huse
        exact huse.elim

/-- In a run that issues no index again while a descriptor names it, and opens
    no file under a shared index, every request through a descriptor acts on
    the file the descriptor was opened on. -/
theorem descriptor_keeps_file {pre post : List Event} {o e : Event} {t t' s s' : State}
    {b a fd : Nat} {d₀ d : Descriptor} {args : OpenArgs} {l r : List (Nat × Inode)} {v : Inode}
    {ld rd : List (Nat × Descriptor)}
    (hpre : Run (guarded IssuesFresh Step) State.init pre t)
    (ho : guarded IssuesFresh Step t o t') (hopens : Opens t o b d₀ args l r a v)
    (hpost : Run (guarded IssuesFresh Step) t' post s)
    (hfd : FoundDesc s.descriptorTable fd ld rd b d) (huse : UsesFd fd e.request)
    (hs : Step s e s') : ActsOn s e s' a d := by
  have hrt := hpre.unguard
  have hrt' : ServiceRun (pre ++ [o]) t' := .next hrt ho.2
  have hbound : Bound s b a v.index := by
    clear hfd hs
    induction hpost with
    | start =>
        have hw := wellLinked_of_run hrt
        exact Bound.opened hw (sound_of_run hrt) ho.1 hopens (step_change hw ho.2)
    | next hrun hstep ih =>
        have hr := hrt'.trans hrun.unguard
        have hw := wellLinked_of_run hr
        exact ih.change hw (sound_of_run hr) hstep.1 (step_change hw hstep.2)
  have hr := hrt'.trans hpost.unguard
  exact hbound.actsOn (sound_of_run hr) hfd huse (step_change (wellLinked_of_run hr) hs)

/-- A file is created and opened; while it is open, two more files are added
    and one of them is opened too; then the first is written. -/
def openedRun : List Request :=
  [.create ⟨1, 1, 0o600, nameX⟩, .open ⟨1, 1, nameX, 1⟩, .create ⟨1, 1, 0o600, nameA⟩,
    .symlink ⟨1, 1, 0o600, nameX, nameB⟩, .open ⟨1, 1, nameA, 1⟩, .write ⟨1, 1, 0, 1, [65]⟩]

/-- No request issues an index again. -/
theorem openedRun_step (k : Nat) (hk : k < openedRun.length) :
    guarded IssuesFresh Step (replay (openedRun.take k))
      ⟨stillEnv, openedRun[k], answer (openedRun.take k) openedRun[k]⟩
      (replay (openedRun.take (k + 1))) := by
  have hrun : ∀ k < openedRun.length, returns (openedRun.take (k + 1)) = true ∧
      (∀ p ∈ (replay (openedRun.take k)).descriptorTable.live,
        p.2.nodeIndex ≠ nextIndex (replay (openedRun.take k)).inodeTable) ∧
      ((replay (openedRun.take k)).inodeTable.live.map fun p => p.2.index).Nodup := by
    decide +kernel
  obtain ⟨hret, hnew, hone⟩ := hrun k hk
  rw [← List.take_append_getElem hk] at hret ⊢
  refine ⟨⟨fun _ => hnew, fun args _ _ p hp q hq hpn hqn => ?_⟩, (step_replay hret).2⟩
  exact List.inj_on_of_nodup_map hone hp hq (hpn.trans hqn.symm)

/-- The write acts on the file at address 0. -/
theorem keeps_file_opened : ∃ s' d,
    Step (replay (openedRun.take 5)) ⟨stillEnv, .write ⟨1, 1, 0, 1, [65]⟩, ⟨.success, .nothing⟩⟩ s' ∧
    ActsOn (replay (openedRun.take 5))
      ⟨stillEnv, .write ⟨1, 1, 0, 1, [65]⟩, ⟨.success, .nothing⟩⟩ s' 0 d := by
  have hpre := Run.single (openedRun_step 0 (by decide))
  have hopen := openedRun_step 1 (by decide)
  have hpost := ((Run.single (openedRun_step 2 (by decide))).next
    (openedRun_step 3 (by decide))).next (openedRun_step 4 (by decide))
  have hwrite := (openedRun_step 5 (by decide)).2
  have hresp : answer (openedRun.take 5) openedRun[5] = ⟨.success, .nothing⟩ := by decide +kernel
  rw [hresp] at hwrite
  have hfind : (replay (openedRun.take 5)).descriptorTable.find (fun d => d.desc = 0)
      = .ok (some 0) := by decide +kernel
  obtain ⟨es, hr⟩ := run_replay (show returns (openedRun.take 5) = true by decide +kernel)
  obtain ⟨ld, d, rd, hfd⟩ := (wellLinked_of_run hr).descs.find_some hfind
  have hinode : (replay (openedRun.take 1)).inodeTable.find (fun i => i.index =
      nodeOf (replay (openedRun.take 1)).filenameTable nameX) = .ok (some 0) := by decide +kernel
  obtain ⟨l, v, r, hv⟩ := (wellLinked_of_run hpre.unguard).inodes.find_some hinode
  have hfile : ∀ p ∈ (replay (openedRun.take 1)).inodeTable.live,
      (⟨p.2.owner, p.2.ownerGroup, p.2.mode⟩ : OwnerGroupPerms) = ⟨1, 1, 0o600⟩ := by
    decide +kernel
  have hopens : Opens (replay (openedRun.take 1))
      ⟨stillEnv, openedRun[1], answer (openedRun.take 1) openedRun[1]⟩
      0 ⟨0, .writeOnly, 0, v.index⟩ ⟨1, 1, nameX, 1⟩ l r 0 v := by
    refine ⟨rfl, by decide +kernel, by decide +kernel, rfl, hv, rfl, ?_⟩
    rw [hfile _ hv.mem]
    decide
  exact ⟨_, d, hwrite, descriptor_keeps_file hpre hopen hopens hpost hfd rfl hwrite⟩

/-- File `a` is opened and removed, and file `b` gets its index. -/
def reissuedRun : List Request :=
  [.create ⟨1, 1, 0o600, nameX⟩, .create ⟨1, 1, 0o600, nameA⟩, .open ⟨1, 1, nameA, 1⟩,
    .unlink ⟨1, 1, nameA⟩, .create ⟨1, 1, 0o600, nameB⟩]

/-- A write through the descriptor of the removed file succeeds: it writes the
    new one. -/
theorem descriptor_changes_file : ¬ ∀ (pre post : List Event) (o e : Event) (t t' s s' : State)
    (b a fd : Nat) (d₀ d : Descriptor) (args : OpenArgs) (l r : List (Nat × Inode)) (v : Inode)
    (ld rd : List (Nat × Descriptor)), ServiceRun pre t → Step t o t' →
    Opens t o b d₀ args l r a v → Run Step t' post s → FoundDesc s.descriptorTable fd ld rd b d →
    UsesFd fd e.request → Step s e s' → ActsOn s e s' a d := by
  intro hclaim
  have hret : returns (reissuedRun ++ [.write ⟨1, 1, 0, 1, [65]⟩]) = true := by decide +kernel
  obtain ⟨hret5, h6⟩ := step_replay hret
  obtain ⟨hret4, h5⟩ := step_replay (show returns (reissuedRun.take 4
    ++ [.create ⟨1, 1, 0o600, nameB⟩]) = true from hret5)
  obtain ⟨hret3, h4⟩ := step_replay (show returns (reissuedRun.take 3 ++ [.unlink ⟨1, 1, nameA⟩])
    = true from hret4)
  obtain ⟨hret2, h3⟩ := step_replay (show returns (reissuedRun.take 2 ++ [.open ⟨1, 1, nameA, 1⟩])
    = true from hret3)
  obtain ⟨pre, hpre⟩ := run_replay hret2
  obtain ⟨es, hr⟩ := run_replay hret5
  have hfind : (replay reissuedRun).descriptorTable.find (fun d => d.desc = 0) = .ok (some 0) := by
    decide +kernel
  obtain ⟨ld, d, rd, hfd⟩ := (wellLinked_of_run hr).descs.find_some hfind
  have hinode : (replay (reissuedRun.take 2)).inodeTable.find (fun i => i.index =
      nodeOf (replay (reissuedRun.take 2)).filenameTable nameA) = .ok (some 1) := by decide +kernel
  obtain ⟨l, v, r, hv⟩ := (wellLinked_of_run hpre).inodes.find_some hinode
  have hfile : ∀ p ∈ (replay (reissuedRun.take 2)).inodeTable.live,
      (⟨p.2.owner, p.2.ownerGroup, p.2.mode⟩ : OwnerGroupPerms) = ⟨1, 1, 0o600⟩ := by
    decide +kernel
  have hopens : Opens (replay (reissuedRun.take 2))
      ⟨stillEnv, .open ⟨1, 1, nameA, 1⟩, answer (reissuedRun.take 2) (.open ⟨1, 1, nameA, 1⟩)⟩
      0 ⟨0, .writeOnly, 0, v.index⟩ ⟨1, 1, nameA, 1⟩ l r 1 v := by
    refine ⟨rfl, by decide +kernel, by decide +kernel, rfl, hv, rfl, ?_⟩
    rw [hfile _ hv.mem]
    decide
  have hacts := hclaim pre _ _ _ _ _ _ _ 0 1 0 _ d _ l r v ld rd hpre h3 hopens
    (.next (.next .start h4) h5) hfd (show UsesFd 0 (.write ⟨1, 1, 0, 1, [65]⟩) from rfl) h6
  -- the inode of file `a` is not there any more
  have hgone : ∀ p ∈ (replay reissuedRun).inodeTable.live, p.1 ≠ 1 := by decide +kernel
  exact (hacts.gone fun w hw => hgone _ hw rfl).1 (by decide +kernel)

end LibfsSpecs
