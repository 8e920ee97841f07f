import Libfs.Served
import Libfs.FileSystemRuns

/-! # The service refines the file system

    Every admissible request is served; so every run of admissible requests is
    a run of the file system with the same answers, and what is known of the
    runs of the file system holds of the files the tables store. -/

namespace LibfsSpecs

open LibfsHeap LibfsStdio LibfsCommon LibfsInode LibfsOperations LibfsRun
open LibfsDirectory LibfsFileSystem

/-- The guard of the runs. -/
def Admits (s : State) (e : Event) : Prop := Admissible s e.request

section Steps

variable {s s' t : State} {f : Fs} {e : Event} {es : List Event}

/-- Every admissible request is served. -/
theorem served (hh : Healthy s) (hr : Represents s f) (hv : f.Valid) (env : Env) {r : Request}
    (hg : Admissible s r) : Served s f env r := by
  cases r with
  | create args => exact served_create hh hr hg
  | chmode args => exact served_chmode hh hr
  | rename args => exact served_rename hh hr
  | unlink args => exact served_unlink hh hr
  | «open» args => exact served_open hh hr hg
  | read args => exact served_read hh hr hg
  | write args => exact served_write hh hr (fun h o hk hm => hv.inside _ h o hk hm) hg
  | seek args => exact served_seek hh hr
  | close args => exact served_close hh hr
  | stat args => exact served_stat hh hr hg
  | link args => exact served_link hh hr hg
  | symlink args => exact served_symlink hh hr hg

/-- A step of the service is a step of the file system. -/
theorem step_refines (hh : Healthy s) (hr : Represents s f) (hv : f.Valid) (hg : Admits s e)
    (hs : Step s e s') : ∃ f', FsStep f e f' ∧ Represents s' f' := by
  obtain ⟨t, resp, f', hdone, hstep, hr'⟩ := served hh hr hv e.env hg
  obtain ⟨rfl, rfl⟩ : s' = t ∧ e.response = resp :=
    Prod.mk.inj (Except.ok.inj (hs.symm.trans hdone))
  exact ⟨f', hstep, hr'⟩

/-- And a run is a run, from any state that stands for one of the file system;
    a condition on the steps that the tables show is one on the files. -/
theorem guarded_refines {P : State → Event → Prop} {Q : Fs → Event → Prop}
    (hPQ : ∀ s f e, Represents s f → P s e → Q f e) (hh : Healthy s) (hr : Represents s f)
    (hv : f.Valid) (hrun : Run (guarded (fun s e => Admits s e ∧ P s e) Step) s es t) :
    Healthy t ∧ ∃ g, Run (guarded Q FsStep) f es g ∧ g.Valid ∧ Represents t g := by
  induction hrun with
  | start => exact ⟨hh, f, .start, hv, hr⟩
  | next _ hs ih =>
      obtain ⟨hh₁, g, hg, hv₁, hr₁⟩ := ih
      obtain ⟨⟨hadmits, hp⟩, hs⟩ := hs
      obtain ⟨g', hstep, hr'⟩ := step_refines hh₁ hr₁ hv₁ hadmits hs
      exact ⟨hh₁.step hadmits hs, g', .next hg ⟨hPQ _ _ _ hr₁ hp, hstep⟩, hv₁.step hstep, hr'⟩

/-- From tables that stand for a file system, the run goes on in both. -/
theorem run_refines (hh : Healthy s) (hr : Represents s f) (hv : f.Valid)
    (hrun : Run (guarded Admits Step) s es t) :
    Healthy t ∧ ∃ g, Run FsStep f es g ∧ g.Valid ∧ Represents t g := by
  have hguard : Run (guarded (fun s e => Admits s e ∧ True) Step) s es t :=
    hrun.mono fun _ _ _ hs => ⟨⟨hs.1, trivial⟩, hs.2⟩
  obtain ⟨hht, g, hg, hvg, hrg⟩ := guarded_refines (Q := fun _ _ => True)
    (fun _ _ _ _ _ => trivial) hh hr hv hguard
  exact ⟨hht, g, hg.unguard, hvg, hrg⟩

/-- From the start too. -/
theorem refines_of_run (hrun : Run (guarded Admits Step) State.init es s) :
    Healthy s ∧ ∃ f, FsRun es f ∧ f.Valid ∧ Represents s f :=
  run_refines healthy_init represents_init valid_empty hrun

end Steps

/-! ## Runs on fixed inputs -/

/-- A request that returns and passes the test is an admissible step. -/
theorem admitted_step {rs : List Request} {r : Request} (hret : returns (rs ++ [r]) = true)
    (hcheck : admits (replay rs) r = true) :
    guarded Admits Step (replay rs) ⟨stillEnv, r, answer rs r⟩ (replay (rs ++ [r])) := by
  obtain ⟨hpre, hstep⟩ := step_replay hret
  obtain ⟨es, hrun⟩ := run_replay hpre
  exact ⟨admissible_of_admits (wellLinked_of_run hrun) hcheck, hstep⟩

/-- Requests that return and pass the test one by one make an admissible run. -/
theorem admitted_replay (rs : List Request) : returns rs = true →
    (∀ k (hk : k < rs.length), admits (replay (rs.take k)) rs[k] = true) →
    ∃ es, Run (guarded Admits Step) State.init es (replay rs) := by
  induction rs using List.reverseRecOn with
  | nil => exact fun _ _ => ⟨[], .start⟩
  | append_singleton rs r ih =>
      intro hret hcheck
      obtain ⟨es, hrun⟩ := ih (step_replay hret).1 fun k hk => by
        have h := hcheck k (by rw [List.length_append]; omega)
        rwa [List.take_append_of_le_length (Nat.le_of_lt hk), List.getElem_append_left hk] at h
      have hlast := hcheck rs.length (by rw [List.length_append]; exact Nat.lt_succ_self _)
      rw [List.take_left, List.getElem_concat_length rfl] at hlast
      exact ⟨_, .next hrun (admitted_step hret hlast)⟩

/-- A byte is written to a new file, and read again in a second session. -/
def sessionsRun : List Request :=
  [.create ⟨1, 1, 0o600, nameX⟩, .open ⟨1, 1, nameX, 1⟩, .write ⟨1, 1, 0, 1, [65]⟩,
    .close ⟨1, 1, 0⟩, .open ⟨1, 1, nameX, 0⟩, .read ⟨1, 1, 0, 1⟩]

/-- The requests of the two sessions return. -/
theorem sessions_returns : ∀ k ≤ sessionsRun.length, returns (sessionsRun.take k) = true := by
  decide +kernel

/-- Each of them passes the test where it arrives. -/
theorem sessions_admits : ∀ k (hk : k < sessionsRun.length),
    admits (replay (sessionsRun.take k)) sessionsRun[k] = true := by decide +kernel

/-- So they make an admissible run. -/
theorem sessions_prefix (n : Nat) (hn : n ≤ sessionsRun.length) : ∃ es,
    Run (guarded Admits Step) State.init es (replay (sessionsRun.take n)) := by
  refine admitted_replay _ (sessions_returns n hn) fun k hk => ?_
  rw [List.length_take] at hk
  rw [List.take_take, List.getElem_take, Nat.min_eq_left (by omega)]
  exact sessions_admits k (by omega)

/-- And each of them makes a step of it. -/
theorem sessions_step (k : Nat) (hk : k < sessionsRun.length) (resp : Response)
    (hresp : answer (sessionsRun.take k) sessionsRun[k] = resp) :
    guarded Admits Step (replay (sessionsRun.take k)) ⟨stillEnv, sessionsRun[k], resp⟩
      (replay (sessionsRun.take (k + 1))) := by
  have hret := sessions_returns (k + 1) hk
  rw [← List.take_append_getElem hk] at hret ⊢
  rw [← hresp]
  exact admitted_step hret (sessions_admits k hk)

/-- The event of its `WRITE`. -/
def byteWritten : Event := ⟨stillEnv, .write ⟨1, 1, 0, 1, [65]⟩, ⟨.success, .nothing⟩⟩

/-- The event of its `READ`. -/
def byteRead : Event := ⟨stillEnv, .read ⟨1, 1, 0, 1⟩, ⟨.success, .bytes [65]⟩⟩

/-! ## Runs of admissible requests -/

/-- The service does what the file system does: the same requests lead from
    the empty file system, with the same answers, to the one the tables stand
    for. -/
theorem file_system_refined {es : List Event} {s : State}
    (hrun : Run (guarded Admits Step) State.init es s) : ∃ f, FsRun es f ∧ Represents s f := by
  obtain ⟨-, f, hf, -, hr⟩ := refines_of_run hrun
  exact ⟨f, hf, hr⟩

/-- The two sessions are sessions of the file system. -/
theorem sessions_refined : ∃ es f, FsRun es f ∧ Represents (replay sessionsRun) f := by
  obtain ⟨es, hrun⟩ := sessions_prefix 6 le_rfl
  exact ⟨es, file_system_refined hrun⟩

/-- No admissible request runs into undefined behaviour, an endless loop or
    the end of the service, and the file system answers it in the same way. -/
theorem admissible_answered {es : List Event} {s : State}
    (hrun : Run (guarded Admits Step) State.init es s) (env : Env) {r : Request}
    (hg : Admissible s r) :
    ∃ s' resp, handle s env r = .ok (s', resp) ∧
      ∃ f', FsRun (es ++ [⟨env, r, resp⟩]) f' ∧ Represents s' f' := by
  obtain ⟨hh, f, hf, hv, hr⟩ := refines_of_run hrun
  obtain ⟨s', resp, f', hdone, hstep, hr'⟩ := served hh hr hv env hg
  exact ⟨s', resp, hdone, f', .next hf hstep, hr'⟩

/-- Requests that follow the first byte of a file, the last three of which are
    refused. -/
def afterByte : List Request :=
  [.write ⟨1, 1, 0, 2, [66, 67]⟩, .rename ⟨nameX, nameA⟩, .symlink ⟨1, 1, 0o600, nameX, nameA⟩,
    .link ⟨1, 1, nameX, nameB⟩, .create ⟨1, 1, 0o600, nameX⟩, .open ⟨1, 1, nameX, 1⟩,
    .stat ⟨2, 2, nameX⟩]

/-- All of them are answered as the file system answers them. -/
theorem byte_answered : ∃ es, ∀ r ∈ afterByte, ∃ s' resp,
    handle (replay (sessionsRun.take 3)) stillEnv r = .ok (s', resp) ∧
      ∃ f', FsRun (es ++ [⟨stillEnv, r, resp⟩]) f' ∧ Represents s' f' := by
  obtain ⟨es, hrun⟩ := sessions_prefix 3 (by decide)
  have hadmits : ∀ r ∈ afterByte, admits (replay (sessionsRun.take 3)) r = true := by
    decide +kernel
  obtain ⟨hh, -⟩ := refines_of_run hrun
  exact ⟨es, fun r hr =>
    admissible_answered hrun stillEnv (admissible_of_admits hh.linked (hadmits r hr))⟩

/-! ## Sessions -/

/-- The bytes of the file with the index. -/
def contentOf (s : State) (n : Nat) : Option Bytes :=
  (s.inodeTable.live.find? fun p => decide (p.2.index = n)).map fun p =>
    (List.range p.2.stat.stSize.toNat).map fun pos =>
      (fileByte (BlockStore.file s.blocks) p.2.dataBlocks pos).getD 0

/-- The bytes in the blocks are the content of the file. -/
theorem HoldsFile.content_eq {bs : BlockStore} {v : Inode} {o : File} (h : HoldsFile bs v o) :
    ((List.range v.stat.stSize.toNat).map fun pos =>
      (fileByte (BlockStore.file bs) v.dataBlocks pos).getD 0) = o.content := by
  have hsize : v.stat.stSize.toNat = o.content.length := by
    rw [show v.stat.stSize = o.content.length from congrArg Stat.stSize h.stat]
    rfl
  apply List.ext_getElem?
  intro j
  rw [hsize, List.getElem?_map]
  by_cases hj : j < o.content.length
  · rw [List.getElem?_range hj, Option.map_some, h.bytes j hj, List.getElem?_eq_getElem hj]
    rfl
  · rw [List.getElem?_eq_none (by simpa using hj), List.getElem?_eq_none (by omega)]
    rfl

/-- The content in the tables is that in the file system. -/
theorem Represents.contentOf {s : State} {f : Fs} (hr : Represents s f) (n : Nat) :
    contentOf s n = (f.dir.objects n).map File.content := by
  cases ho : f.dir.objects n with
  | none =>
      rw [LibfsSpecs.contentOf, List.find?_eq_none.mpr]
      · rfl
      · exact fun p hp he => hr.files.absent ho p hp (of_decide_eq_true he)
  | some o =>
      obtain ⟨l, r, a, v, hf, hold⟩ := hr.files.found ho
      rw [LibfsSpecs.contentOf, hf.find?_eq]
      exact congrArg some hold.content_eq

section Sessions

variable {pre es : List Event} {o : Event} {t t' s : State} {args : OpenArgs} {fd n : Nat}
  {content : Bytes}

/-- The start of a session: the file system at the `OPEN` and behind it. -/
theorem session_start (hpre : Run (guarded Admits Step) State.init pre t)
    (hopen : guarded Admits Step t o t') (hreq : o.request = .open args)
    (hresp : o.response = ⟨.success, .descriptor fd⟩)
    (hn : lookup t.filenameTable args.filename = some n) :
    ∃ f f' mode, Represents t f ∧ Represents t' f' ∧ Healthy t' ∧ f'.Valid ∧
      OpenMode.ofFlags args.flags = some mode ∧ f'.handles fd = some ⟨n, mode, 0⟩ ∧
      ∀ j p', f'.dir.objects j = some p' →
        ∃ p, f.dir.objects j = some p ∧ p'.content = p.content := by
  obtain ⟨hh, f, -, hv, hr⟩ := refines_of_run hpre
  obtain ⟨f', hstep, hr'⟩ := step_refines hh hr hv hopen.1 hopen.2
  obtain ⟨mode, i, p, hmode, hp, hk, hsame⟩ := hstep.opens hreq hresp
  obtain rfl : n = i := Option.some.inj (hn.symm.trans ((hr.lookup_eq _).trans hp.1))
  exact ⟨f, f', mode, hr, hr', hh.step hopen.1 hopen.2, hv.step hstep, hmode, hk, hsame⟩

/-- The session of a writer: the file ends up with exactly what was sent
    through the descriptor, one `WRITE` behind the other, whatever the other
    clients do in between; without any it is as it was. -/
theorem written_as_sent (hpre : Run (guarded Admits Step) State.init pre t)
    (hopen : guarded Admits Step t o t') (hreq : o.request = .open args) (hflags : args.flags = 1)
    (hresp : o.response = ⟨.success, .descriptor fd⟩)
    (hn : lookup t.filenameTable args.filename = some n)
    (hpost : Run (guarded Admits Step) t' es s) (honly : ∀ e ∈ es, OnlyWrites fd e)
    (hthere : contentOf s n = some content) :
    (sentAll fd es = [] ∧ contentOf t n = some content) ∨
      (sentAll fd es ≠ [] ∧ content = (sentAll fd es).flatten) := by
  obtain ⟨f, f', mode, hr, hr', hh', hv', hmode, hk, hsame⟩ :=
    session_start hpre hopen hreq hresp hn
  obtain rfl : mode = .writeOnly := by
    rw [hflags] at hmode
    exact (Option.some.inj hmode).symm
  obtain ⟨-, g, hrun, -, hrg⟩ := run_refines hh' hr' hv' hpost
  rw [hrg.contentOf] at hthere
  obtain ⟨q, hq, rfl⟩ := Option.map_eq_some_iff.mp hthere
  obtain ⟨p', h', hp', -, -, hcase⟩ := writer_run hv' hrun hk rfl honly hq
  obtain ⟨p, hp, hc⟩ := hsame n p' hp'
  rcases hcase with ⟨hnil, hc'⟩ | ⟨hne, hc'⟩
  · refine Or.inl ⟨hnil, ?_⟩
    rw [hr.contentOf, hp, hc', hc]
    rfl
  · refine Or.inr ⟨hne, ?_⟩
    rw [hc', List.take_zero, List.nil_append]

/-- The writer of the first session has written all there is. -/
theorem written_one_byte :
    (sentAll 0 [byteWritten] = [] ∧ contentOf (replay (sessionsRun.take 1)) 0 = some [65]) ∨
      (sentAll 0 [byteWritten] ≠ [] ∧ [65] = (sentAll 0 [byteWritten]).flatten) := by
  obtain ⟨pre, hpre⟩ := sessions_prefix 1 (by decide)
  have hopen := sessions_step 1 (by decide) ⟨.success, .descriptor 0⟩ (by decide +kernel)
  have hwrite := sessions_step 2 (by decide) ⟨.success, .nothing⟩ (by decide +kernel)
  refine written_as_sent hpre hopen rfl rfl rfl (by decide +kernel) (.single hwrite) ?_
    (by decide +kernel)
  intro e he _
  obtain rfl := List.mem_singleton.mp he
  exact ⟨_, rfl⟩

/-- No `WRITE` goes through a descriptor of the file. -/
def NotWritten (n : Nat) (s : State) (e : Event) : Prop :=
  ∀ args, e.request = .write args →
    ∀ p ∈ s.descriptorTable.live, p.2.desc = args.fd → p.2.nodeIndex ≠ n

/-- What is not written through the tables is not written in the file system. -/
theorem NotWritten.spares {f : Fs} {e : Event} (h : NotWritten n s e) (hr : Represents s f) :
    Spares f n e := by
  intro fd k hk hfile
  obtain ⟨l, r, b, d, hfd, rfl⟩ := hr.handles.found hk
  cases hreq : e.request with
  | write args =>
      refine sent_other hreq ?_
      rintro rfl
      exact h args hreq _ hfd.mem (FoundDesc.desc hfd) hfile
  | _ => rw [sent, hreq]

/-- The session of a reader: as long as nobody writes to the file, the `READ`s
    through the descriptor deliver it from the start, without gap or
    repetition, whatever the other clients do in between. -/
theorem read_as_stored (hpre : Run (guarded Admits Step) State.init pre t)
    (hopen : guarded Admits Step t o t') (hreq : o.request = .open args)
    (hresp : o.response = ⟨.success, .descriptor fd⟩)
    (hn : lookup t.filenameTable args.filename = some n)
    (hpost : Run (guarded (fun s e => Admits s e ∧ NotWritten n s e) Step) t' es s)
    (honly : ∀ e ∈ es, OnlyReads fd e) (hthere : contentOf s n = some content) :
    contentOf t n = some content ∧
      (gotAll fd es).flatten = content.take (gotAll fd es).flatten.length ∧
      (gotAll fd es).flatten.length ≤ content.length := by
  obtain ⟨f, f', mode, hr, hr', hh', hv', hmode, hk, hsame⟩ :=
    session_start hpre hopen hreq hresp hn
  obtain ⟨-, g, hrun, -, hrg⟩ := guarded_refines (Q := fun f e => Spares f n e)
    (fun _ _ _ hr hp => hp.spares hr) hh' hr' hv' hpost
  rw [hrg.contentOf] at hthere
  obtain ⟨q, hq, rfl⟩ := Option.map_eq_some_iff.mp hthere
  obtain ⟨p', h', hp', hc', -, hoff, hle, hgot⟩ := reader_run hrun hk honly hq
  obtain ⟨p, hp, hc⟩ := hsame n p' hp'
  refine ⟨?_, ?_, ?_⟩
  · rw [hr.contentOf, hp, hc', hc]
    rfl
  · rw [hc']
    rwa [List.drop_zero] at hgot
  · rcases hle with hnil | hle
    · rw [hnil]
      exact Nat.zero_le _
    · rw [hc']
      rwa [hoff, Nat.zero_add] at hle

/-- The reader of the second session gets all there is. -/
theorem read_one_byte : contentOf (replay (sessionsRun.take 4)) 0 = some [65] ∧
    (gotAll 0 [byteRead]).flatten = [65].take (gotAll 0 [byteRead]).flatten.length ∧
      (gotAll 0 [byteRead]).flatten.length ≤ [65].length := by
  obtain ⟨pre, hpre⟩ := sessions_prefix 4 (by decide)
  have hopen := sessions_step 4 (by decide) ⟨.success, .descriptor 0⟩ (by decide +kernel)
  have hread := sessions_step 5 (by decide) ⟨.success, .bytes [65]⟩ (by decide +kernel)
  refine read_as_stored hpre hopen rfl rfl (by decide +kernel)
    (.single ⟨⟨hread.1, ?_⟩, hread.2⟩) ?_ (by decide +kernel)
  · exact fun args h => nomatch h
  · intro e he _
    obtain rfl := List.mem_singleton.mp he
    exact ⟨_, rfl⟩

end Sessions

end LibfsSpecs
