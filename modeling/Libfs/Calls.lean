import Libfs.ReadResponses
import Libfs.Run
import Mathlib.Logic.Function.Basic

/-! # Calls of the library and the responses they take

    Any number of processes call functions of the library, each one after the
    other, and the service answers the calls in any order through one queue.
    A call waits for messages of the type `get_seq` gave it, so it gets its
    own response as long as no other call that waits has the same number. -/

namespace LibfsSpecs

open LibfsHeap LibfsStdio LibfsCommon LibfsBuffer LibfsQueue LibfsRun

/-! ## The system -/

/-- `get_seq`, as the callers store it; `sizeof(long) / 2` is four. -/
def getSeq (pid seqCounter : Nat) : Nat := u32 (u32 (pid * 16) + seqCounter)

/-- A call of a process, by how many it made before. -/
structure Call (ι : Type) where
  proc : ι
  number : Nat
deriving DecidableEq

/-- What the service answers to a call. -/
structure Reply where
  status : Status
  data : Bytes
  short : data.length < 4294967296

/-- How far the receiving loop of a call has come: nothing is received yet, or
    so many bytes of so many are. -/
inductive Progress where
  | first
  | further (copiedData respDataSize : Nat)
deriving DecidableEq

/-- The processes and the queue of responses: how many calls each process has
    made, how far the one it waits for is, the messages the service has still
    to send for each call, and the messages in the queue with the call they
    answer. -/
structure Calls (ι : Type) where
  counter : ι → Nat
  waiting : ι → Option Progress
  unsent : Call ι → List ResponseMsg
  queue : List (Call ι × ResponseMsg)

/-- A call begins, the service sends the next message for a call, or a call
    takes a message. -/
inductive CallEvent (ι : Type) where
  | start (p : ι)
  | send (c : Call ι)
  | receive (p : ι)

variable {ι : Type}

/-- The number of a call; `seq_counter` is an `unsigned`. -/
def Call.seq (pid : ι → Nat) (c : Call ι) : Nat := getSeq (pid c.proc) (u32 c.number)

/-- The last call a process has begun. -/
def Calls.current (s : Calls ι) (p : ι) : Call ι := ⟨p, s.counter p - 1⟩

/-- No calls yet. -/
def Calls.init : Calls ι := ⟨fun _ => 0, fun _ => none, fun _ => [], []⟩

/-- The messages the service sends for a call. -/
def replyMessages (pid : ι → Nat) (reply : Call ι → Reply) (c : Call ι) : List ResponseMsg :=
  responseMessages (c.seq pid) (reply c).status (reply c).data

/-- The message a call takes next. -/
def Calls.takes (pid : ι → Nat) (s : Calls ι) (p : ι) :
    Option ((Call ι × ResponseMsg) × List (Call ι × ResponseMsg)) :=
  take (fun x => ofType ((s.current p).seq pid) x.2) s.queue

/-- The progress after a message; a further one has to be marked as such, or
    the process exits. -/
def Progress.next (m : ResponseMsg) : Progress → Option Progress
  | .first => some (.further m.partSize m.dataSize)
  | .further copiedData respDataSize =>
      if m.multipart = 0 then none
      else some (.further (u32 (copiedData + m.partSize)) respDataSize)

/-- The loop goes on while something is missing. -/
def Progress.loop : Progress → Option Progress
  | .first => some .first
  | .further copiedData respDataSize =>
      if copiedData < respDataSize then some (.further copiedData respDataSize) else none

section Steps

variable [DecidableEq ι]

/-- The queues refuse messages of type zero, so a call with that number does
    not begin. -/
inductive CallStep (pid : ι → Nat) (reply : Call ι → Reply) :
    Calls ι → CallEvent ι → Calls ι → Prop where
  | start {s : Calls ι} {p : ι} (hidle : s.waiting p = none)
      (hseq : 0 < Call.seq pid ⟨p, s.counter p⟩) :
      CallStep pid reply s (.start p) { s with
        counter := Function.update s.counter p (s.counter p + 1)
        waiting := Function.update s.waiting p (some .first)
        unsent := Function.update s.unsent ⟨p, s.counter p⟩
          (replyMessages pid reply ⟨p, s.counter p⟩) }
  | send {s : Calls ι} {c : Call ι} {m : ResponseMsg} {ms : List ResponseMsg}
      (hm : s.unsent c = m :: ms) :
      CallStep pid reply s (.send c) { s with
        unsent := Function.update s.unsent c ms
        queue := s.queue ++ [(c, m)] }
  | receive {s : Calls ι} {p : ι} {w w' : Progress} {c : Call ι} {m : ResponseMsg}
      {queue : List (Call ι × ResponseMsg)} (hwait : s.waiting p = some w)
      (htake : s.takes pid p = some ((c, m), queue)) (hnext : w.next m = some w') :
      CallStep pid reply s (.receive p) { s with
        waiting := Function.update s.waiting p w'.loop
        queue := queue }

/-- One event, if it is possible. -/
def Calls.step (pid : ι → Nat) (reply : Call ι → Reply) (s : Calls ι) :
    CallEvent ι → Option (Calls ι)
  | .start p =>
      if s.waiting p = none ∧ 0 < Call.seq pid ⟨p, s.counter p⟩ then some { s with
        counter := Function.update s.counter p (s.counter p + 1)
        waiting := Function.update s.waiting p (some .first)
        unsent := Function.update s.unsent ⟨p, s.counter p⟩
          (replyMessages pid reply ⟨p, s.counter p⟩) }
      else none
  | .send c =>
      match s.unsent c with
      | [] => none
      | m :: ms => some { s with
          unsent := Function.update s.unsent c ms
          queue := s.queue ++ [(c, m)] }
  | .receive p =>
      match s.waiting p, s.takes pid p with
      | some w, some ((_, m), queue) =>
          (w.next m).map fun w' => { s with
            waiting := Function.update s.waiting p w'.loop
            queue := queue }
      | _, _ => none

/-- What is computed is a step. -/
theorem Calls.step_some {pid : ι → Nat} {reply : Call ι → Reply} {s s' : Calls ι}
    {e : CallEvent ι} (h : s.step pid reply e = some s') : CallStep pid reply s e s' := by
  cases e with
  | start p =>
      rw [Calls.step] at h
      by_cases hif : s.waiting p = none ∧ 0 < Call.seq pid ⟨p, s.counter p⟩
      · rw [if_pos hif] at h
        cases h
        exact .start hif.1 hif.2
      · rw [if_neg hif] at h
        exact nomatch h
  | send c =>
      rw [Calls.step] at h
      cases hm : s.unsent c with
      | nil =>
          simp only [hm] at h
          exact nomatch h
      | cons m ms =>
          simp only [hm] at h
          cases h
          exact .send hm
  | receive p =>
      rw [Calls.step] at h
      cases hwait : s.waiting p with
      | none =>
          simp only [hwait] at h
          exact nomatch h
      | some w =>
          cases htake : s.takes pid p with
          | none =>
              simp only [hwait, htake] at h
              exact nomatch h
          | some t =>
              obtain ⟨⟨c, m⟩, queue⟩ := t
              simp only [hwait, htake] at h
              obtain ⟨w', hnext, hs⟩ := Option.map_eq_some_iff.mp h
              cases hs
              exact .receive hwait htake hnext

end Steps

/-- No call begins whose number, sixteen times the process id and the count of
    the calls before, is that of a call of another process that still waits. -/
def FreshSeq (pid : ι → Nat) (s : Calls ι) : CallEvent ι → Prop
  | .start p => ∀ q, q ≠ p → s.waiting q ≠ none →
      ¬ 16 * pid p + s.counter p ≡ 16 * pid q + (s.counter q - 1) [MOD 4294967296]
  | _ => True

/-! ## Numbers -/

/-- When two calls have the same number. -/
theorem getSeq_eq_iff {a b c d : Nat} :
    getSeq a (u32 c) = getSeq b (u32 d) ↔ 16 * a + c ≡ 16 * b + d [MOD 4294967296] := by
  unfold getSeq u32 Nat.ModEq
  omega

/-- Processes with small ids that make few calls never share a number. -/
theorem getSeq_inj {a b c d : Nat} (ha : a < 2 ^ 28) (hb : b < 2 ^ 28) (hc : c < 16) (hd : d < 16)
    (h : getSeq a (u32 c) = getSeq b (u32 d)) : a = b ∧ c = d := by
  have hmod : (16 * a + c) % 4294967296 = (16 * b + d) % 4294967296 := getSeq_eq_iff.mp h
  omega

/-- They always begin their calls with fresh numbers. -/
theorem freshSeq_of_few {pid : ι → Nat} (hinj : Function.Injective pid)
    (hpid : ∀ p, pid p < 2 ^ 28) {s : Calls ι} (hfew : ∀ p, s.counter p < 16) (e : CallEvent ι) :
    FreshSeq pid s e := by
  cases e with
  | start p =>
      intro q hq _ hmod
      have hlt : s.counter q - 1 < 16 := by have := hfew q; omega
      obtain ⟨he, -⟩ := getSeq_inj (hpid p) (hpid q) (hfew p) hlt (getSeq_eq_iff.mpr hmod)
      exact hq (hinj he).symm
  | send c => trivial
  | receive p => trivial

/-! ## What is on its way to each call -/

/-- The messages of a call that it has not taken yet. -/
def Calls.own [DecidableEq ι] (s : Calls ι) (c : Call ι) : List ResponseMsg :=
  (s.queue.filter fun x => x.1 = c).map Prod.snd ++ s.unsent c

/-- The bytes of a reply, as the request that is cut up like it. -/
def replyReq (pid : ι → Nat) (reply : Call ι → Reply) (c : Call ι) : ClientReq :=
  ⟨.read, c.seq pid, (reply c).data, (reply c).short⟩

theorem replyMessages_eq (pid : ι → Nat) (reply : Call ι → Reply) (c : Call ι) :
    replyMessages pid reply c
      = (requestMessages (replyReq pid reply c)).map (readAnswer (reply c).status) :=
  responseMessages_eq (replyReq pid reply c) (reply c).status

/-- While parts are left, bytes are. -/
theorem Continues.lt {c : ClientReq} {off : Nat} {ms : List RequestMsg} (h : Continues c off ms)
    (hne : ms ≠ []) : off < c.payload.length := by
  cases ms with
  | nil => exact absurd rfl hne
  | cons m ms =>
      have hpos := h.1.pos
      have hin := h.1.inside
      omega

/-- What is on its way to a call is what its loop still waits for, and nothing
    is on its way to a call that does not wait. -/
structure Serves [DecidableEq ι] (pid : ι → Nat) (reply : Call ι → Reply) (s : Calls ι) : Prop where
  begun : ∀ p, s.waiting p ≠ none → 0 < s.counter p ∧ 0 < (s.current p).seq pid
  distinct : ∀ p q, p ≠ q → s.waiting p ≠ none → s.waiting q ≠ none →
    (s.current p).seq pid ≠ (s.current q).seq pid
  done : ∀ c, s.waiting c.proc = none ∨ c ≠ s.current c.proc → s.own c = []
  sent : ∀ c, ∀ m ∈ s.own c, m ∈ replyMessages pid reply c
  first : ∀ p, s.waiting p = some .first →
    s.own (s.current p) = replyMessages pid reply (s.current p)
  further : ∀ p copied size, s.waiting p = some (.further copied size) →
    size = (reply (s.current p)).data.length ∧ 0 < copied ∧ ∃ ms, ms ≠ [] ∧
      Continues (replyReq pid reply (s.current p)) copied ms ∧
      s.own (s.current p) = ms.map (readAnswer (reply (s.current p)).status)

section Invariant

variable [DecidableEq ι] {pid : ι → Nat} {reply : Call ι → Reply} {s : Calls ι}

theorem serves_init : Serves pid reply (Calls.init : Calls ι) where
  begun := by
    intro p hp
    exact absurd rfl hp
  distinct := by
    intro p q _ hp
    exact absurd rfl hp
  done := by
    intro c _
    rfl
  sent := by
    intro c m hm
    exact nomatch hm
  first := by
    intro p hp
    exact nomatch hp
  further := by
    intro p copied size hp
    exact nomatch hp

omit [DecidableEq ι] in
/-- The messages of a call all carry its number. -/
theorem replyMessages_seq {c : Call ι} {m : ResponseMsg} (hm : m ∈ replyMessages pid reply c) :
    m.seq = c.seq pid := by
  rw [replyMessages_eq] at hm
  obtain ⟨m₀, hm₀, rfl⟩ := List.mem_map.mp hm
  show m₀.seq = _
  rcases requestMessages_cases (replyReq pid reply c) with ⟨m₁, he, hsingle⟩ | ⟨m₁, ms, he, -, hcont⟩
  · rw [he] at hm₀
    rw [List.mem_singleton.mp hm₀]
    exact hsingle.seq
  · rw [he] at hm₀
    rcases List.mem_cons.mp hm₀ with rfl | hms
    · exact hcont.1.seq
    · exact (hcont.2.further ms (by have := hcont.1.pos; omega) m₀ hms).2.2

/-- A message in the queue is on its way to the call it answers. -/
theorem Calls.mem_own {x : Call ι × ResponseMsg} (hx : x ∈ s.queue) : x.2 ∈ s.own x.1 := by
  unfold Calls.own
  refine List.mem_append_left _ (List.mem_map.mpr ⟨x, List.mem_filter.mpr ⟨hx, ?_⟩, rfl⟩)
  exact decide_eq_true rfl

/-- The queue has the number of a call on the messages of this call and on no
    others. -/
theorem Serves.typed (h : Serves pid reply s) {p : ι} (hp : s.waiting p ≠ none)
    {x : Call ι × ResponseMsg} (hx : x ∈ s.queue) :
    ofType ((s.current p).seq pid) x.2 = decide (x.1 = s.current p) := by
  have hown := Calls.mem_own hx
  have hseq := replyMessages_seq (h.sent x.1 x.2 hown)
  obtain ⟨-, hpos⟩ := h.begun p hp
  have hnotzero : ¬ ((s.current p).seq pid : Int) = 0 := by omega
  unfold ofType
  rw [decide_eq_false hnotzero, Bool.false_or, hseq]
  by_cases hc : x.1 = s.current p
  · rw [decide_eq_true hc, hc]
    exact decide_eq_true rfl
  · rw [decide_eq_false hc]
    refine decide_eq_false fun he => hc ?_
    -- the call the message answers waits too, so it has another number
    by_contra hne
    have hnonempty : s.own x.1 ≠ [] := List.ne_nil_of_mem hown
    have hwaits : s.waiting x.1.proc ≠ none := fun hnone => hnonempty (h.done x.1 (Or.inl hnone))
    have hcur : x.1 = s.current x.1.proc := by
      by_contra hother
      exact hnonempty (h.done x.1 (Or.inr hother))
    have hproc : x.1.proc ≠ p := by
      rintro rfl
      exact hne hcur
    refine h.distinct _ _ hproc hwaits hp ?_
    rw [← hcur]
    exact Int.ofNat.inj he

/-- A call that waits takes the next message of its own. -/
theorem Serves.takes (h : Serves pid reply s) {p : ι} (hp : s.waiting p ≠ none) {c : Call ι}
    {m : ResponseMsg} {queue : List (Call ι × ResponseMsg)}
    (ht : s.takes pid p = some ((c, m), queue)) :
    c = s.current p ∧ s.own (s.current p) = m :: Calls.own { s with queue := queue } (s.current p) ∧
      ∀ c', c' ≠ s.current p → Calls.own { s with queue := queue } c' = s.own c' := by
  have hsame : s.takes pid p = take (fun x => decide (x.1 = s.current p)) s.queue :=
    take_congr fun x hx => h.typed hp hx
  rw [hsame] at ht
  obtain ⟨htest, hfilter, hothers⟩ := take_some ht
  refine ⟨of_decide_eq_true htest, ?_, ?_⟩
  · unfold Calls.own
    rw [hfilter]
    rfl
  · intro c' hc'
    unfold Calls.own
    rw [hothers fun x => decide (x.1 = c')]
    intro x hx
    have hx' : x.1 = s.current p := of_decide_eq_true hx
    exact decide_eq_false fun he => hc' (he.symm.trans hx')

/-- A call that begins. -/
theorem Serves.start (h : Serves pid reply s) {p : ι} (hidle : s.waiting p = none)
    (hseq : 0 < Call.seq pid ⟨p, s.counter p⟩) (hfresh : FreshSeq pid s (.start p)) :
    Serves pid reply { s with
      counter := Function.update s.counter p (s.counter p + 1)
      waiting := Function.update s.waiting p (some .first)
      unsent := Function.update s.unsent ⟨p, s.counter p⟩
        (replyMessages pid reply ⟨p, s.counter p⟩) } := by
  let s' : Calls ι := { s with
    counter := Function.update s.counter p (s.counter p + 1)
    waiting := Function.update s.waiting p (some .first)
    unsent := Function.update s.unsent ⟨p, s.counter p⟩
      (replyMessages pid reply ⟨p, s.counter p⟩) }
  show Serves pid reply s'
  have hwait : ∀ q, q ≠ p → s'.waiting q = s.waiting q := fun q hq => Function.update_of_ne hq ..
  have hself : s'.waiting p = some .first := Function.update_self ..
  have hcur : ∀ q, q ≠ p → s'.current q = s.current q := by
    intro q hq
    show (⟨q, Function.update s.counter p _ q - 1⟩ : Call ι) = _
    rw [Function.update_of_ne hq]
    rfl
  have hnew : s'.current p = ⟨p, s.counter p⟩ := by
    show (⟨p, Function.update s.counter p _ p - 1⟩ : Call ι) = _
    rw [Function.update_self, Nat.add_sub_cancel]
  have hother : ∀ c, c ≠ ⟨p, s.counter p⟩ → s'.own c = s.own c := by
    intro c hc
    show _ ++ Function.update s.unsent _ _ c = _
    rw [Function.update_of_ne hc]
    rfl
  have hown : s'.own ⟨p, s.counter p⟩ = replyMessages pid reply ⟨p, s.counter p⟩ := by
    have hnone := h.done ⟨p, s.counter p⟩ (Or.inl hidle)
    obtain ⟨hqueue, -⟩ := List.append_eq_nil_iff.mp hnone
    show (s.queue.filter _).map Prod.snd ++ Function.update s.unsent _ _ _ = _
    rw [hqueue, Function.update_self, List.nil_append]
  have hdiff : ∀ q, q ≠ p → s.waiting q ≠ none →
      Call.seq pid ⟨p, s.counter p⟩ ≠ (s.current q).seq pid := by
    intro q hq hw he
    exact hfresh q hq hw (getSeq_eq_iff.mp he)
  constructor
  case begun =>
    intro q hq
    by_cases hqp : q = p
    · subst hqp
      rw [hnew]
      refine ⟨?_, hseq⟩
      show 0 < Function.update s.counter q _ q
      rw [Function.update_self]
      exact Nat.succ_pos _
    · rw [hwait q hqp] at hq
      rw [hcur q hqp]
      refine ⟨?_, (h.begun q hq).2⟩
      show 0 < Function.update s.counter p _ q
      rw [Function.update_of_ne hqp]
      exact (h.begun q hq).1
  case distinct =>
    intro q r hqr hq hr
    by_cases hqp : q = p
    · subst hqp
      have hrq : r ≠ q := fun e => hqr e.symm
      rw [hwait r hrq] at hr
      rw [hnew, hcur r hrq]
      exact hdiff r hrq hr
    · rw [hwait q hqp] at hq
      rw [hcur q hqp]
      by_cases hrp : r = p
      · subst hrp
        rw [hnew]
        exact fun e => hdiff q hqp hq e.symm
      · rw [hwait r hrp] at hr
        rw [hcur r hrp]
        exact h.distinct q r hqr hq hr
  case done =>
    intro c hc
    have hne : c ≠ ⟨p, s.counter p⟩ := by
      rintro rfl
      rcases hc with hc | hc
      · rw [hself] at hc
        exact nomatch hc
      · exact hc hnew.symm
    rw [hother c hne]
    by_cases hcp : c.proc = p
    · exact h.done c (Or.inl (by rw [hcp]; exact hidle))
    · rw [hwait _ hcp, hcur _ hcp] at hc
      exact h.done c hc
  case sent =>
    intro c m hm
    by_cases hc : c = ⟨p, s.counter p⟩
    · subst hc
      rw [hown] at hm
      exact hm
    · rw [hother c hc] at hm
      exact h.sent c m hm
  case first =>
    intro q hq
    by_cases hqp : q = p
    · subst hqp
      rw [hnew, hown]
    · rw [hwait q hqp] at hq
      rw [hcur q hqp, hother _ (fun e => hqp (congrArg Call.proc e)), h.first q hq]
  case further =>
    intro q copied size hq
    by_cases hqp : q = p
    · subst hqp
      rw [hself] at hq
      exact nomatch hq
    · rw [hwait q hqp] at hq
      rw [hcur q hqp, hother _ (fun e => hqp (congrArg Call.proc e))]
      exact h.further q copied size hq

/-- A message that is sent is still on its way. -/
theorem Serves.send (h : Serves pid reply s) {c : Call ι} {m : ResponseMsg} {ms : List ResponseMsg}
    (hm : s.unsent c = m :: ms) :
    Serves pid reply { s with
      unsent := Function.update s.unsent c ms
      queue := s.queue ++ [(c, m)] } := by
  have hown : ∀ c', Calls.own { s with
      unsent := Function.update s.unsent c ms
      queue := s.queue ++ [(c, m)] } c' = s.own c' := by
    intro c'
    show ((s.queue ++ [(c, m)]).filter _).map Prod.snd ++ Function.update s.unsent c ms c' = _
    rw [List.filter_append, List.map_append, List.append_assoc]
    by_cases hc : c' = c
    · subst hc
      have hlast : [(c', m)].filter (fun x => x.1 = c') = [(c', m)] := by simp
      rw [Function.update_self, hlast]
      show _ ++ m :: ms = _
      rw [← hm]
      rfl
    · have hnone : [(c, m)].filter (fun x => x.1 = c') = [] := by simpa using fun e => hc e.symm
      rw [Function.update_of_ne hc, hnone]
      rfl
  constructor
  case begun => exact h.begun
  case distinct => exact h.distinct
  case done =>
    intro c' hc'
    rw [hown]
    exact h.done c' hc'
  case sent =>
    intro c' m' hm'
    rw [hown] at hm'
    exact h.sent c' m' hm'
  case first =>
    intro p hp
    exact (hown _).trans (h.first p hp)
  case further =>
    intro p copied size hp
    obtain ⟨hsize, hpos, ms', hne, hcont, hms⟩ := h.further p copied size hp
    exact ⟨hsize, hpos, ms', hne, hcont, (hown _).trans hms⟩

/-- What a call has after its next message: the parts that are left, and no
    progress to keep when none are. -/
theorem Serves.progress (h : Serves pid reply s) {p : ι} {w w' : Progress} {m : ResponseMsg}
    {rest : List ResponseMsg} (hw : s.waiting p = some w) (hown : s.own (s.current p) = m :: rest)
    (hnext : w.next m = some w') :
    (w'.loop = none ∧ rest = []) ∨
      ∃ copied ms, w'.loop = some (.further copied (reply (s.current p)).data.length) ∧
        0 < copied ∧ ms ≠ [] ∧ Continues (replyReq pid reply (s.current p)) copied ms ∧
        rest = ms.map (readAnswer (reply (s.current p)).status) := by
  cases w with
  | first =>
      cases hnext
      rw [h.first p hw, replyMessages_eq] at hown
      rcases requestMessages_cases (replyReq pid reply (s.current p)) with
        ⟨m₀, he, hsingle⟩ | ⟨m₀, ms, he, hne, hcont⟩
      · rw [he] at hown
        obtain ⟨rfl, rfl⟩ := List.cons.inj hown
        refine Or.inl ⟨if_neg ?_, rfl⟩
        show ¬ m₀.partSize < m₀.dataSize
        rw [single_partSize he hsingle.room, hsingle.size]
        exact Nat.lt_irrefl _
      · rw [he] at hown
        obtain ⟨rfl, rfl⟩ := List.cons.inj hown
        obtain ⟨hpart, hrest⟩ := hcont
        rw [Nat.zero_add] at hrest
        refine Or.inr ⟨m₀.partSize, ms, ?_, hpart.pos, hne, hrest, rfl⟩
        show (if m₀.partSize < m₀.dataSize then some (Progress.further m₀.partSize m₀.dataSize)
          else none) = _
        rw [hpart.size, if_pos (hrest.lt hne)]
        rfl
  | further copied size =>
      obtain ⟨rfl, hpos, ms, hne, hcont, hms⟩ := h.further p copied size hw
      rw [hms] at hown
      cases ms with
      | nil => exact absurd rfl hne
      | cons m₀ ms =>
          obtain ⟨rfl, rfl⟩ := List.cons.inj hown
          obtain ⟨hpart, hrest⟩ := hcont
          have hin : copied + m₀.partSize ≤ (reply (s.current p)).data.length := hpart.inside
          have hshort := (reply (s.current p)).short
          have hu : u32 (copied + m₀.partSize) = copied + m₀.partSize := u32_of_lt (by omega)
          change (if m₀.multipart = 0 then none
            else some (Progress.further (u32 (copied + m₀.partSize)) _)) = some w' at hnext
          rw [if_neg hpart.multipart, hu] at hnext
          cases hnext
          by_cases hlast : ms = []
          · subst hlast
            have hend : copied + m₀.partSize = (reply (s.current p)).data.length := hrest
            exact Or.inl ⟨if_neg (by omega), rfl⟩
          · refine Or.inr ⟨copied + m₀.partSize, ms, if_pos (hrest.lt hlast), by omega, hlast,
              hrest, rfl⟩

/-- A message that is taken. -/
theorem Serves.receive (h : Serves pid reply s) {p : ι} {w w' : Progress} {c : Call ι}
    {m : ResponseMsg} {queue : List (Call ι × ResponseMsg)} (hw : s.waiting p = some w)
    (ht : s.takes pid p = some ((c, m), queue)) (hnext : w.next m = some w') :
    Serves pid reply { s with
      waiting := Function.update s.waiting p w'.loop
      queue := queue } := by
  let s' : Calls ι := { s with
    waiting := Function.update s.waiting p w'.loop
    queue := queue }
  show Serves pid reply s'
  have hbusy : s.waiting p ≠ none := by
    rw [hw]
    exact Option.some_ne_none w
  obtain ⟨rfl, hown, hothers⟩ := h.takes hbusy ht
  have hleft := h.progress hw hown hnext
  have hwait : ∀ q, q ≠ p → s'.waiting q = s.waiting q := fun q hq => Function.update_of_ne hq ..
  have hself : s'.waiting p = w'.loop := Function.update_self ..
  have hwaited : ∀ q, s'.waiting q ≠ none → s.waiting q ≠ none := by
    intro q hq
    by_cases hqp : q = p
    · rw [hqp]
      exact hbusy
    · rwa [hwait q hqp] at hq
  have hkeep : ∀ q, q ≠ p → s'.own (s.current q) = s.own (s.current q) :=
    fun q hq => hothers _ fun e => hq (congrArg Call.proc e)
  constructor
  case begun =>
    intro q hq
    exact h.begun q (hwaited q hq)
  case distinct =>
    intro q r hqr hq hr
    exact h.distinct q r hqr (hwaited q hq) (hwaited r hr)
  case done =>
    intro c hc
    by_cases hcur : c = s.current p
    · subst hcur
      rcases hc with hc | hc
      · rcases hleft with ⟨-, hnil⟩ | ⟨_, _, hsome, -⟩
        · exact hnil
        · rw [show s'.waiting (s.current p).proc = w'.loop from hself, hsome] at hc
          exact nomatch hc
      · exact absurd rfl hc
    · have hsame : s'.own c = s.own c := hothers c hcur
      rw [hsame]
      refine h.done c ?_
      by_cases hcp : c.proc = p
      · refine Or.inr fun e => hcur ?_
        rw [hcp] at e
        exact e
      · rw [hwait _ hcp] at hc
        exact hc
  case sent =>
    intro c m' hm'
    by_cases hcur : c = s.current p
    · subst hcur
      refine h.sent _ m' ?_
      rw [hown]
      exact List.mem_cons_of_mem m hm'
    · refine h.sent c m' ?_
      rw [← hothers c hcur]
      exact hm'
  case first =>
    intro q hq
    by_cases hqp : q = p
    · subst hqp
      rw [hself] at hq
      rcases hleft with ⟨hnone, -⟩ | ⟨_, _, hsome, -⟩
      · rw [hnone] at hq
        exact nomatch hq
      · rw [hsome] at hq
        exact nomatch hq
    · rw [hwait q hqp] at hq
      exact (hkeep q hqp).trans (h.first q hq)
  case further =>
    intro q copied size hq
    by_cases hqp : q = p
    · subst hqp
      rw [hself] at hq
      rcases hleft with ⟨hnone, -⟩ | ⟨copied', ms, hsome, hpos, hne, hcont, hrest⟩
      · rw [hnone] at hq
        exact nomatch hq
      · rw [hsome] at hq
        cases hq
        exact ⟨rfl, hpos, ms, hne, hcont, hrest⟩
    · rw [hwait q hqp] at hq
      obtain ⟨hsize, hpos, ms, hne, hcont, hms⟩ := h.further q copied size hq
      exact ⟨hsize, hpos, ms, hne, hcont, (hkeep q hqp).trans hms⟩

theorem serves_of_run {es : List (CallEvent ι)}
    (hr : Run (guarded (FreshSeq pid) (CallStep pid reply)) Calls.init es s) :
    Serves pid reply s := by
  refine hr.invariant (Serves pid reply) serves_init ?_
  rintro s e s' h ⟨hfresh, hstep⟩
  cases hstep with
  | start hidle hseq => exact h.start hidle hseq hfresh
  | send hm => exact h.send hm
  | receive hw ht hnext => exact h.receive hw ht hnext

/-- In a run in which no call begins with the number of another one that waits,
    the calls that wait have numbers of their own, and each of them takes
    responses to itself. -/
theorem responses_reach_call {es : List (CallEvent ι)}
    (hr : Run (guarded (FreshSeq pid) (CallStep pid reply)) Calls.init es s) :
    (∀ p q, p ≠ q → s.waiting p ≠ none → s.waiting q ≠ none →
      (s.current p).seq pid ≠ (s.current q).seq pid) ∧
    (∀ p, s.waiting p ≠ none → ∀ c m queue, s.takes pid p = some ((c, m), queue) →
      c = s.current p ∧ m ∈ replyMessages pid reply (s.current p)) ∧
    ∀ p, ¬ FreshSeq pid s (.start p) →
      ∃ q, q ≠ p ∧ s.waiting q ≠ none ∧ Call.seq pid ⟨p, s.counter p⟩ = (s.current q).seq pid := by
  have h := serves_of_run hr
  refine ⟨h.distinct, ?_, ?_⟩
  · intro p hp c m queue ht
    obtain ⟨hc, hown, -⟩ := h.takes hp ht
    refine ⟨hc, ?_⟩
    refine h.sent _ m ?_
    rw [hown]
    exact List.mem_cons_self ..
  · intro p hnot
    by_contra hnone
    refine hnot ?_
    intro q hq hw hmod
    exact hnone ⟨q, hq, hw, getSeq_eq_iff.mpr hmod⟩

end Invariant

/-- Two processes, and a service that answers every call with `SUCCESS`. -/
def twoPids : Bool → Nat
  | true => 1
  | false => 2

/-- Every call is answered with a success without data. -/
def plainReply : Call Bool → Reply := fun _ => ⟨.success, [], by decide⟩

/-- The first calls of both. -/
theorem responses_reach_twoPids : ∃ s : Calls Bool, s.waiting true ≠ none ∧ s.waiting false ≠ none ∧
    (s.current true).seq twoPids ≠ (s.current false).seq twoPids := by
  let s₁ : Calls Bool := { Calls.init with
    counter := Function.update (fun _ => 0) true 1
    waiting := Function.update (fun _ => none) true (some .first)
    unsent := Function.update (fun _ => []) ⟨true, 0⟩ (replyMessages twoPids plainReply ⟨true, 0⟩) }
  have h1 : CallStep twoPids plainReply Calls.init (.start true) s₁ := .start rfl (by decide)
  have h2 : CallStep twoPids plainReply s₁ (.start false) _ := .start rfl (by decide)
  have hfresh₁ : FreshSeq twoPids (Calls.init : Calls Bool) (.start true) :=
    fun _ _ hw => absurd rfl hw
  have hfresh₂ : FreshSeq twoPids s₁ (.start false) := by
    intro q hq _
    cases q with
    | true => decide
    | false => exact absurd rfl hq
  have hrun : Run (guarded (FreshSeq twoPids) (CallStep twoPids plainReply)) Calls.init _ _ :=
    .next (.next .start ⟨hfresh₁, h1⟩) ⟨hfresh₂, h2⟩
  have hone : (some Progress.first) ≠ none := Option.some_ne_none _
  exact ⟨_, hone, hone, (responses_reach_call hrun).1 true false (by decide) hone hone⟩

/-- Sixteen calls of the first process, one by one, and then one of each. -/
def sixteenCalls : List (CallEvent Bool) :=
  (List.range 16).flatMap (fun k => [.start true, .send ⟨true, k⟩, .receive true])
    ++ [.start true, .start false, .send ⟨false, 0⟩]

/-- The seventeenth call of process 1 has the number of the first of process
    2, and takes the response to it. -/
theorem response_taken_by_other : ¬ ∀ (pid : Bool → Nat) (reply : Call Bool → Reply)
    (es : List (CallEvent Bool)) (s : Calls Bool), Function.Injective pid → (∀ p, 0 < pid p) →
    Run (CallStep pid reply) Calls.init es s →
    ∀ p, s.waiting p ≠ none → ∀ c m queue, s.takes pid p = some ((c, m), queue) →
      c = s.current p := by
  intro hclaim
  have hplay : (play (Calls.step twoPids plainReply) Calls.init sixteenCalls).map (fun s =>
      (s.waiting true, (s.takes twoPids true).map fun t => t.1.1))
        = some (some .first, some ⟨false, 0⟩) := by decide +kernel
  obtain ⟨s, hs, hstate⟩ := Option.map_eq_some_iff.mp hplay
  obtain ⟨hwait, htake⟩ := Prod.mk.inj hstate
  obtain ⟨⟨⟨c, m⟩, queue⟩, ht, hc⟩ := Option.map_eq_some_iff.mp htake
  have hinj : Function.Injective twoPids := by
    intro p q he
    cases p with
    | true =>
        cases q with
        | true => rfl
        | false => exact absurd he (by decide)
    | false =>
        cases q with
        | true => exact absurd he (by decide)
        | false => rfl
  have hpos : ∀ p, 0 < twoPids p := by
    intro p
    cases p with
    | true => decide
    | false => decide
  have hrun := play_run (fun _ _ _ => Calls.step_some) hs
  have howner := hclaim twoPids plainReply sixteenCalls s hinj hpos hrun true
    (by rw [hwait]; exact Option.some_ne_none _) c m queue ht
  have hproc : c.proc = true := congrArg Call.proc howner
  rw [show c = ⟨false, 0⟩ from hc] at hproc
  exact nomatch hproc

end LibfsSpecs
