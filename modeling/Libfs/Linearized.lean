import Libfs.Schedules

/-! # The calls are served one after another

    The worker's steps on the tables are a run of the service in which every
    call stands once, with the request it sent, at a place between its
    beginning and its end; and what a call returns is what was answered there.
    If the requests are admissible where they are served, all callers together
    see one file system. -/

namespace LibfsSpecs

open LibfsHeap LibfsStdio LibfsCommon LibfsInode LibfsOperations LibfsRun LibfsBuffer LibfsQueue
  LibfsRequests

variable {ι : Type} [DecidableEq ι] {limit : QueueLimit} {calls : ι → LibCall} {n : Nat}
  {buf : ReqBuffer}
  {s : System ι} {es : List (SystemEvent ι)}

/-- What a call returns is what its entry in the log says. -/
theorem Linear.returns (h : Linear calls s) {r : ι} {ret : Returned}
    (hret : s.returned r = some ret) :
    ∃ e, (r, e) ∈ s.log ∧ ret = (calls r).result e := by
  obtain ⟨e, he, hdone, hcall⟩ := h.settled r ret hret
  obtain ⟨t, t', hh⟩ := handled_of_log h.run h.asked he
  have hans := h.answered r e he
  rw [hdone, List.append_nil] at hans
  -- all the call has got is of its type
  have hown : (s.got r).filter (ofType (calls r).seq) = s.got r := by
    refine List.filter_eq_self.mpr fun m hm => ?_
    have hseq : m.seq = (calls r).seq := LibCall.answer_seq (hans ▸ hm)
    rw [ofType, hseq, decide_eq_true rfl, Bool.or_true]
  obtain ⟨queue', hrcv, hdrained⟩ := receiveCall_sent (calls r).inRange hh (hown.trans hans)
    (calls r).env (calls r).errno (calls r).room
  obtain rfl := Except.ok.inj (hcall.symm.trans hrcv)
  rw [hdrained.eq_nil hown]
  exact ⟨e, he, rfl⟩

/-- The log only grows. -/
theorem log_grows {s' : System ι} {e : SystemEvent ι} (hs : SystemStep limit calls s e s') :
    s.log <+: s'.log := by
  cases hs with
  | execute => exact List.prefix_append _ _
  | _ => exact List.prefix_rfl

/-- Over a run the log only grows. -/
theorem log_of_run {t : System ι} (hr : Run (guarded KeepsOrder (SystemStep limit calls)) s es t) :
    s.log <+: t.log :=
  hr.invariant (fun t => s.log <+: t.log) List.prefix_rfl fun _ _ _ h hs =>
    h.trans (log_grows hs.2)

/-! ## Calls are served one after another -/

/-- One call stands before another, or before where the other may come to
    stand. -/
def Precedes (log : List (ι × Event)) (r r' : ι) : Prop :=
  ∃ before after, log = before ++ after ∧ r ∈ before.map Prod.fst ∧ r' ∉ before.map Prod.fst

/-- The calls are served one after another, each at most once and with the
    request it sent, and no call before it is made; a call that has returned
    was served, and returns what was answered there; and a call that returns
    before another is made is served before it in whatever follows. -/
theorem calls_linearized (hseq : Function.Injective fun r => (calls r).seq)
    (hb : reqBufferCreate n = some buf)
    (hr : Run (guarded KeepsOrder (SystemStep limit calls)) (System.init calls buf) es s) :
    Run Step State.init (s.log.map Prod.snd) s.files ∧
    (s.log.map Prod.fst).Nodup ∧
    (∀ x ∈ s.log, x.2.request = (calls x.1).request ∧ x.1 ∈ s.called) ∧
    (∀ r ret, s.returned r = some ret → ∃ e, (r, e) ∈ s.log ∧ ret = (calls r).result e) ∧
    ∀ r r' ds t, s.returned r ≠ none → r' ∉ s.called →
      Run (guarded KeepsOrder (SystemStep limit calls)) s ds t → Precedes t.log r r' := by
  obtain ⟨ht, h⟩ := linear_of_run hseq hb hr
  have hcalled : ∀ r ∈ s.log.map Prod.fst, r ∈ s.called := by
    intro r hmem
    rw [h.order] at hmem
    have hdone := (ht.works.accounted.finished r).mp (List.mem_of_mem_take hmem)
    exact h.called r hdone.1
  refine ⟨h.run, h.once ht, ?_, fun r ret hret => h.returns hret, ?_⟩
  · intro x hx
    exact ⟨h.asked x hx, hcalled x.1 (List.mem_map.mpr ⟨x, hx, rfl⟩)⟩
  · intro r r' ds t hret hnew hrun
    obtain ⟨after, hafter⟩ := log_of_run hrun
    obtain ⟨ret, hret⟩ := Option.ne_none_iff_exists'.mp hret
    obtain ⟨e, he, -⟩ := h.returns hret
    exact ⟨s.log, after, hafter.symm, List.mem_map.mpr ⟨_, he, rfl⟩,
      fun hmem => hnew (hcalled r' hmem)⟩

/-- The three calls of the schedule return what was answered, and the file is
    created before it is written. -/
theorem three_calls_linearized : ∃ t : System (Fin 3),
    (∀ r, ∃ e ret, t.returned r = some ret ∧ (r, e) ∈ t.log ∧
      ret = (threeCallers r).result e ∧ ret.value = 0) ∧ Precedes t.log 0 2 := by
  obtain ⟨s, u, t, hs, hu, ht, -, -, hvalues⟩ := three_played
  obtain ⟨-, hserve, hend⟩ := three_runs hs hu ht
  -- the first call has returned when the third one is made
  have hplay : (play (checked (regular threeCallers) (System.step fourMessages threeCallers))
      (System.init threeCallers fourSlots) (threeBegin.take 10)).map
        (fun v => ((v.returned 0).isSome, v.called)) = some (true, [0, 1]) := by decide +kernel
  obtain ⟨v, hv, hstate⟩ := Option.map_eq_some_iff.mp hplay
  obtain ⟨hreturned, hcalled⟩ := Prod.mk.inj hstate
  have hplayed : play (checked (regular threeCallers) (System.step fourMessages threeCallers)) v
      (threeBegin.drop 10) = some s := by
    rw [← List.take_append_drop 10 threeBegin, play_append, hv] at hs
    exact hs
  have hrun := schedule_run threeCallers_seq (n := 4) rfl hv
  have hrest := ((schedule_goes_on threeCallers_seq (n := 4) rfl hrun hplayed).trans hserve).trans
    hend
  obtain ⟨-, -, -, -, hbefore⟩ :=
    calls_linearized threeCallers_seq (n := 4) rfl (Regular.keepsOrder hrun)
  obtain ⟨-, -, -, hreturns, -⟩ :=
    calls_linearized threeCallers_seq (n := 4) rfl (Regular.keepsOrder (hrun.trans hrest))
  refine ⟨t, fun r => ?_, ?_⟩
  · obtain ⟨ret, hret, hvalue⟩ := Option.map_eq_some_iff.mp (hvalues r)
    obtain ⟨e, he, hans⟩ := hreturns r ret hret
    exact ⟨e, ret, hret, he, hans, hvalue⟩
  · refine hbefore 0 2 _ t ?_ ?_ (Regular.keepsOrder hrest)
    · exact Option.isSome_iff_ne_none.mp hreturned
    · rw [hcalled]
      decide

/-! ## The calls and the file system -/

/-- The log of a run is a run of the service, under what the guard says about
    the requests that are served. -/
theorem logged_of_run {G : System ι → SystemEvent ι → Prop} {P : State → Event → Prop}
    (hkeeps : ∀ s e, G s e → KeepsOrder s e)
    (hserves : ∀ s env r resp, G s (.execute env r) → P s.files ⟨env, (calls r).request, resp⟩)
    (hseq : Function.Injective fun r => (calls r).seq) (hb : reqBufferCreate n = some buf)
    (hr : Run (guarded G (SystemStep limit calls)) (System.init calls buf) es s) :
    Run (guarded P Step) State.init (s.log.map Prod.snd) s.files := by
  induction hr with
  | start => exact .start
  | next hrun hs ih =>
      obtain ⟨hg, hs⟩ := hs
      obtain ⟨ht, h⟩ := linear_of_run hseq hb
        (hrun.mono fun _ _ _ hs => ⟨hkeeps _ _ hs.1, hs.2⟩)
      cases hs with
      | execute hw hslot hcall _ hop =>
          obtain ⟨hstep, -⟩ := execute_step hseq ht h.order hw hslot hcall hop
          rw [List.map_append]
          exact .next ih ⟨hserves _ _ _ _ hg, hstep⟩
      | _ => exact ih

/-- The log of a guarded run is a run of admissible requests. -/
theorem admitted_of_run (hseq : Function.Injective fun r => (calls r).seq)
    (hb : reqBufferCreate n = some buf)
    (hr : Run (guarded (Regular calls) (SystemStep limit calls)) (System.init calls buf) es s) :
    Run (guarded Admits Step) State.init (s.log.map Prod.snd) s.files :=
  logged_of_run (fun _ _ hg => hg.1) (fun _ _ _ _ hg => hg.2) hseq hb hr

/-- Callers that use the library at the same time see one file system: there is
    a run of it over the served calls, in the order they were served, that
    answers each with what its call returns and ends in what the tables hold. -/
theorem calls_refined (hseq : Function.Injective fun r => (calls r).seq)
    (hb : reqBufferCreate n = some buf)
    (hr : Run (guarded (Regular calls) (SystemStep limit calls)) (System.init calls buf) es s) :
    ∃ f, LibfsFileSystem.FsRun (s.log.map Prod.snd) f ∧ Represents s.files f ∧
      ∀ r ret, s.returned r = some ret →
        ∃ e, (r, e) ∈ s.log ∧ e.request = (calls r).request ∧ ret = (calls r).result e := by
  obtain ⟨-, h⟩ := linear_of_run hseq hb (Regular.keepsOrder hr)
  obtain ⟨-, f, hf, -, hrep⟩ := refines_of_run (admitted_of_run hseq hb hr)
  refine ⟨f, hf, hrep, fun r ret hret => ?_⟩
  obtain ⟨e, he, hval⟩ := h.returns hret
  exact ⟨e, he, h.asked _ he, hval⟩

/-- The three callers of the schedule see one file system. -/
theorem three_calls_refined : ∃ (t : System (Fin 3)) (f : LibfsFileSystem.Fs),
    LibfsFileSystem.FsRun (t.log.map Prod.snd) f ∧ Represents t.files f ∧
      ∀ r, ∃ e, (r, e) ∈ t.log ∧ e.request = threeRequests r := by
  obtain ⟨s, u, t, hs, hu, ht, -, -, hvalues⟩ := three_played
  obtain ⟨hbegin, hserve, hend⟩ := three_runs hs hu ht
  obtain ⟨f, hf, hrep, hreturns⟩ :=
    calls_refined threeCallers_seq (n := 4) rfl ((hbegin.trans hserve).trans hend)
  refine ⟨t, f, hf, hrep, fun r => ?_⟩
  obtain ⟨ret, hret, -⟩ := Option.map_eq_some_iff.mp (hvalues r)
  obtain ⟨e, he, hasked, -⟩ := hreturns r ret hret
  exact ⟨e, he, hasked⟩

end LibfsSpecs
