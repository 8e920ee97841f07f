import Libfs.SystemInvariant

/-! # Schedules

    The condition on the runs of the callers and the service, and a test for
    it: a schedule that is computed and passes the test event by event is a
    run that meets the condition. -/

namespace LibfsSpecs

open LibfsHeap LibfsStdio LibfsCommon LibfsInode LibfsOperations LibfsRun LibfsBuffer LibfsQueue
  LibfsRequests

variable {ι : Type} [DecidableEq ι] {limit : QueueLimit} {calls : ι → LibCall} {n : Nat}
  {buf : ReqBuffer} {s t : System ι} {es ds : List (SystemEvent ι)}

/-! ## The condition -/

/-- The request that is served is admissible. -/
def ServesAdmissible (calls : ι → LibCall) (s : System ι) : SystemEvent ι → Prop
  | .execute _ r => Admissible s.files (calls r).request
  | _ => True

/-- The guard of the runs. -/
def Regular (calls : ι → LibCall) (s : System ι) (e : SystemEvent ι) : Prop :=
  KeepsOrder s e ∧ ServesAdmissible calls s e

omit [DecidableEq ι] in
/-- The guard contains that of the order. -/
theorem Regular.keeps (s : System ι) (e : SystemEvent ι) (h : Regular calls s e) :
    KeepsOrder s e := h.1

/-- A guarded run keeps to the order. -/
theorem Regular.keepsOrder (hr : Run (guarded (Regular calls) (SystemStep limit calls)) s es t) :
    Run (guarded KeepsOrder (SystemStep limit calls)) s es t :=
  hr.mono fun _ _ _ hs => ⟨hs.1.1, hs.2⟩

/-! ## The test -/

/-- The test for the guard. -/
def regular (calls : ι → LibCall) (s : System ι) : SystemEvent ι → Bool
  | .deliver env r =>
      inOrder s.service.ring (.deliver env r) && leavesRoom s.service (.deliver env r)
  | .execute _ r => admits s.files (calls r).request
  | _ => true

/-- What passes the test meets the guard. -/
theorem regular_sound (hw : WellLinked s.files) {e : SystemEvent ι}
    (h : regular calls s e = true) : Regular calls s e := by
  cases e with
  | deliver env r =>
      obtain ⟨horder, hroom⟩ := Bool.and_eq_true_iff.mp h
      exact ⟨⟨inOrder_sound horder, leavesRoom_sound hroom⟩, trivial⟩
  | execute env r => exact ⟨trivial, admissible_of_admits hw h⟩
  | _ => exact ⟨trivial, trivial⟩

/-- A run that meets the condition goes on with a schedule that is computed and
    passes the test. -/
theorem schedule_goes_on (hseq : Function.Injective fun r => (calls r).seq)
    (hb : reqBufferCreate n = some buf)
    (hr : Run (guarded (Regular calls) (SystemStep limit calls)) (System.init calls buf) ds s)
    (h : play (checked (regular calls) (System.step limit calls)) s es = some t) :
    Run (guarded (Regular calls) (SystemStep limit calls)) s es t := by
  refine hr.play ?_ h
  intro ds s e t hr hs
  obtain ⟨htest, hstep⟩ := checked_some hs
  have hw := wellLinked_of_run (linear_of_run hseq hb (Regular.keepsOrder hr)).2.run
  exact ⟨regular_sound hw htest, System.step_some hstep⟩

/-- A schedule that passes the test is a guarded run. -/
theorem schedule_run (hseq : Function.Injective fun r => (calls r).seq)
    (hb : reqBufferCreate n = some buf)
    (h : play (checked (regular calls) (System.step limit calls)) (System.init calls buf) es
      = some t) :
    Run (guarded (Regular calls) (SystemStep limit calls)) (System.init calls buf) es t :=
  schedule_goes_on hseq hb .start h

/-! ## Three callers -/

/-- One caller creates a file, one opens it for writing, and one writes two
    messages of bytes through the descriptor. -/
def threeRequests : Fin 3 → Request
  | 0 => .create ⟨1, 1, 0o600, nameX⟩
  | 1 => .open ⟨1, 1, nameX, 1⟩
  | 2 => .write ⟨1, 1, 0, 4100, List.replicate 4100 65⟩

/-- The arguments are values of their C types. -/
theorem threeRequests_inRange (r : Fin 3) : InRange (threeRequests r) := by
  match r with
  | 0 => exact ⟨by decide, by decide, by decide, by decide⟩
  | 1 => exact ⟨by decide, by decide, by decide, by decide⟩
  | 2 => exact ⟨by decide, by decide, by decide, List.length_replicate, by decide⟩

/-- Three calls with the numbers one, two and three. -/
def threeCallers (r : Fin 3) : LibCall where
  request := threeRequests r
  seq := r.val + 1
  env := stillEnv
  errno := 0
  buf := []
  inRange := threeRequests_inRange r
  positive := by omega
  room := by
    match r with
    | 0 | 1 | 2 => exact Nat.zero_le _

/-- The numbers are different. -/
theorem threeCallers_seq : Function.Injective fun r => (threeCallers r).seq := by
  intro r r' h
  have hval : (r.val : Int) + 1 = r'.val + 1 := h
  exact Fin.ext (by omega)

/-- A response queue of four messages. -/
def fourMessages : QueueLimit := ⟨fun queue _ => decide (queue.length < 4), fun _ => rfl⟩

/-- An empty ring of four slots. -/
def fourSlots : ReqBuffer := ⟨false, 4, 0, 0, 0, 4, List.replicate 4 zeroReq⟩

/-- The calls, up to where the worker is given the request to write.  It is
    made when the file is there, and its two parts come in around the answer
    to the second call. -/
def threeBegin : List (SystemEvent (Fin 3)) :=
  [.call 0, .call 1, .deliver stillEnv 0, .deliver stillEnv 1, .fetch, .execute stillEnv 0, .send,
    .complete, .receive 0, .return 0, .fetch, .call 2, .deliver stillEnv 2, .execute stillEnv 1,
    .deliver stillEnv 2, .send, .complete, .fetch]

/-- The worker serves that request. -/
def threeServe : List (SystemEvent (Fin 3)) := [.execute stillEnv 2, .send, .complete]

/-- What is left for the callers. -/
def threeEnd : List (SystemEvent (Fin 3)) := [.receive 2, .receive 1, .return 1, .return 2]

/-- The schedule before the last request is served, behind that, and at its
    end. -/
theorem three_played : ∃ s u t, play (checked (regular threeCallers)
      (System.step fourMessages threeCallers)) (System.init threeCallers fourSlots) threeBegin
        = some s ∧
    play (checked (regular threeCallers) (System.step fourMessages threeCallers)) s threeServe
        = some u ∧
    play (checked (regular threeCallers) (System.step fourMessages threeCallers)) u threeEnd
        = some t ∧
    (s.log.map Prod.fst = [0, 1] ∧ s.service.worker = .given 2 ∧
      admits s.files (threeRequests 2) = true) ∧
    (u.log.map Prod.fst = [0, 1, 2] ∧ u.service.worker = .idle) ∧
    ∀ r, (t.returned r).map Returned.value = some 0 := by
  have hplay : (play (checked (regular threeCallers) (System.step fourMessages threeCallers))
      (System.init threeCallers fourSlots) threeBegin).any (fun s =>
        decide (s.log.map Prod.fst = [0, 1] ∧ s.service.worker = .given 2 ∧
          admits s.files (threeRequests 2) = true) &&
        (play (checked (regular threeCallers) (System.step fourMessages threeCallers)) s
          threeServe).any fun u =>
            decide (u.log.map Prod.fst = [0, 1, 2] ∧ u.service.worker = .idle) &&
            (play (checked (regular threeCallers) (System.step fourMessages threeCallers)) u
              threeEnd).any fun t =>
                decide (∀ r, (t.returned r).map Returned.value = some 0)) = true := by
    decide +kernel
  obtain ⟨s, hs, hplay⟩ := (Option.any_eq_true _ _).mp hplay
  obtain ⟨hbefore, hplay⟩ := Bool.and_eq_true_iff.mp hplay
  obtain ⟨u, hu, hplay⟩ := (Option.any_eq_true _ _).mp hplay
  obtain ⟨hbehind, hplay⟩ := Bool.and_eq_true_iff.mp hplay
  obtain ⟨t, ht, hvalues⟩ := (Option.any_eq_true _ _).mp hplay
  exact ⟨s, u, t, hs, hu, ht, of_decide_eq_true hbefore, of_decide_eq_true hbehind,
    of_decide_eq_true hvalues⟩

/-- The three parts are runs, one behind the other. -/
theorem three_runs {s u t : System (Fin 3)}
    (hs : play (checked (regular threeCallers) (System.step fourMessages threeCallers))
      (System.init threeCallers fourSlots) threeBegin = some s)
    (hu : play (checked (regular threeCallers) (System.step fourMessages threeCallers)) s
      threeServe = some u)
    (ht : play (checked (regular threeCallers) (System.step fourMessages threeCallers)) u
      threeEnd = some t) :
    Run (guarded (Regular threeCallers) (SystemStep fourMessages threeCallers))
      (System.init threeCallers fourSlots) threeBegin s ∧
    Run (guarded (Regular threeCallers) (SystemStep fourMessages threeCallers)) s threeServe u ∧
    Run (guarded (Regular threeCallers) (SystemStep fourMessages threeCallers)) u threeEnd t := by
  have hbegin := schedule_run threeCallers_seq (n := 4) rfl hs
  have hserve := schedule_goes_on threeCallers_seq (n := 4) rfl hbegin hu
  exact ⟨hbegin, hserve, schedule_goes_on threeCallers_seq (n := 4) rfl (hbegin.trans hserve) ht⟩

end LibfsSpecs
