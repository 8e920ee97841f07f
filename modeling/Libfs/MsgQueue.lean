import Mathlib.Data.List.Basic

/-! # Message queues

    A queue of messages of several types, as System V has them: messages are
    appended at the end, and a receiver takes the first one it has asked for
    and leaves the others in their order.  What a receiver gets is what it
    would get from a queue of its own. -/

namespace LibfsQueue

variable {μ : Type} {test other : μ → Bool}

/-- Take the first message that passes the test. -/
def take (test : μ → Bool) : List μ → Option (μ × List μ)
  | [] => none
  | m :: q => if test m then some (m, q) else (take test q).map fun p => (p.1, m :: p.2)

/-- A receiver gets the first of its own messages, and the others stay. -/
theorem take_of_filter {m : μ} {ms : List μ} (q : List μ) (h : q.filter test = m :: ms) :
    ∃ q', take test q = some (m, q') ∧ q'.filter test = ms ∧
      ∀ other, (∀ x, test x = true → other x = false) → q'.filter other = q.filter other := by
  induction q with
  | nil => exact nomatch h
  | cons x q ih =>
      by_cases hx : test x = true
      · rw [List.filter_cons_of_pos hx] at h
        obtain ⟨rfl, hms⟩ := List.cons.inj h
        refine ⟨q, if_pos hx, hms, ?_⟩
        intro other hother
        rw [List.filter_cons_of_neg (by rw [hother _ hx]; decide)]
      · rw [List.filter_cons_of_neg hx] at h
        obtain ⟨q', htake, hown, hrest⟩ := ih h
        refine ⟨x :: q', ?_, ?_, ?_⟩
        · unfold take
          rw [if_neg hx, htake]
          rfl
        · rw [List.filter_cons_of_neg hx]
          exact hown
        · intro other hother
          rw [List.filter_cons, List.filter_cons, hrest other hother]

/-- Without a message of its own the receiver waits. -/
theorem take_eq_none {q : List μ} : take test q = none ↔ q.filter test = [] := by
  induction q with
  | nil => exact ⟨fun _ => rfl, fun _ => rfl⟩
  | cons x q ih =>
      unfold take
      by_cases hx : test x = true
      · rw [if_pos hx, List.filter_cons_of_pos hx]
        constructor
        · intro h
          exact nomatch h
        · intro h
          exact nomatch h
      · rw [if_neg hx, List.filter_cons_of_neg hx, Option.map_eq_none_iff]
        exact ih

/-- What is taken is the first message that was asked for. -/
theorem take_some {q q' : List μ} {m : μ} (h : take test q = some (m, q')) :
    test m = true ∧ q.filter test = m :: q'.filter test ∧
      ∀ other, (∀ x, test x = true → other x = false) → q'.filter other = q.filter other := by
  cases hq : q.filter test with
  | nil =>
      rw [take_eq_none.mpr hq] at h
      exact nomatch h
  | cons x ms =>
      obtain ⟨q'', htake, hown, hrest⟩ := take_of_filter q hq
      cases htake.symm.trans h
      have hmem : m ∈ q.filter test := by
        rw [hq]
        exact List.mem_cons_self ..
      exact ⟨(List.mem_filter.mp hmem).2, by rw [hown], hrest⟩

theorem take_length {m : μ} (q : List μ) :
    ∀ {q' : List μ}, take test q = some (m, q') → q.length = q'.length + 1 := by
  induction q with
  | nil =>
      intro q' h
      cases h
  | cons x q ih =>
      intro q' h
      rw [take] at h
      by_cases hx : test x = true
      · rw [if_pos hx] at h
        cases h
        rfl
      · rw [if_neg hx] at h
        obtain ⟨⟨m', rest⟩, hrest, heq⟩ := Option.map_eq_some_iff.mp h
        cases heq
        rw [List.length_cons, List.length_cons, ih hrest]

/-- It only matters which messages of the queue pass the test. -/
theorem take_congr {q : List μ} (h : ∀ x ∈ q, test x = other x) : take test q = take other q := by
  induction q with
  | nil => rfl
  | cons x q ih =>
      unfold take
      rw [h x (List.mem_cons_self ..), ih fun y hy => h y (List.mem_cons_of_mem x hy)]

end LibfsQueue
