import Libfs.Run
import Mathlib.Data.List.Induction

/-! # Numbers issued from the last one in use

    The elements of a list carry numbers; a new element goes to the end and
    gets the number behind that of the last element, on words of `w` values.
    As long as fewer than `w` numbers have been issued the numbers increase
    along the list, whichever elements were taken out in between.

    Nothing here is about a particular program: what issues numbers is a
    parameter. -/

namespace LibfsNumbering

open LibfsRun

variable {w k m : Nat} {xs ys : List Nat}

/-- The number behind the last one in use. -/
def issue (w : Nat) (xs : List Nat) : Nat :=
  match xs.getLast? with
  | none => 0
  | some n => (n + 1) % w

/-- The numbers increase and are below `k`. -/
structure Increasing (k : Nat) (xs : List Nat) : Prop where
  sorted : xs.Pairwise (· < ·)
  below : ∀ n ∈ xs, n < k

theorem Increasing.nil : Increasing k [] where
  sorted := List.Pairwise.nil
  below := fun _ h => nomatch h

theorem Increasing.mono (h : Increasing k xs) (hle : k ≤ m) : Increasing m xs where
  sorted := h.sorted
  below := fun n hn => Nat.lt_of_lt_of_le (h.below n hn) hle

theorem Increasing.sublist (h : Increasing k xs) (hsub : ys.Sublist xs) : Increasing k ys where
  sorted := h.sorted.sublist hsub
  below := fun n hn => h.below n (hsub.subset hn)

theorem Increasing.nodup (h : Increasing k xs) : xs.Nodup := h.sorted.imp Nat.ne_of_lt

/-- What is issued is above all numbers in use, by at most one. -/
theorem Increasing.above (h : Increasing k xs) (hk : k < w) :
    (∀ n ∈ xs, n < issue w xs) ∧ issue w xs ≤ k := by
  cases xs using List.reverseRecOn with
  | nil => exact ⟨fun _ hn => absurd hn List.not_mem_nil, Nat.zero_le k⟩
  | append_singleton front last _ =>
      have hlast : last < k := h.below last (by simp)
      have hissue : issue w (front ++ [last]) = last + 1 := by
        unfold issue
        rw [List.getLast?_concat]
        exact Nat.mod_eq_of_lt (by omega)
      rw [hissue]
      refine ⟨fun n hn => Nat.lt_succ_of_le ?_, hlast⟩
      -- the last number is the largest one
      rcases List.mem_append.mp hn with hfront | hend
      · exact Nat.le_of_lt ((List.pairwise_append.mp h.sorted).2.2 n hfront last (by simp))
      · exact Nat.le_of_eq (List.mem_singleton.mp hend)

/-- One more number was issued. -/
theorem Increasing.push (h : Increasing k xs) (hk : k < w) :
    Increasing (k + 1) (xs ++ [issue w xs]) := by
  obtain ⟨habove, hle⟩ := h.above hk
  constructor
  case sorted =>
    refine List.pairwise_append.mpr ⟨h.sorted, List.pairwise_singleton .., ?_⟩
    intro n hn x hx
    rw [List.mem_singleton.mp hx]
    exact habove n hn
  case below =>
    intro n hn
    rcases List.mem_append.mp hn with hold | hlast
    · exact Nat.lt_succ_of_lt (h.below n hold)
    · rw [List.mem_singleton.mp hlast]
      exact Nat.lt_succ_of_le hle

/-- A step that takes elements out or has one number issued. -/
def Renumbers (w : Nat) (issues : Prop) (xs ys : List Nat) : Prop :=
  ys.Sublist xs ∨ (issues ∧ ys = xs ++ [issue w xs])

theorem Renumbers.same {issues : Prop} : Renumbers w issues xs xs :=
  Or.inl (List.Sublist.refl xs)

theorem Renumbers.imp {issues issues' : Prop} (h : Renumbers w issues xs ys)
    (himp : issues → issues') : Renumbers w issues' xs ys := by
  rcases h with hsub | ⟨hissues, hpush⟩
  · exact Or.inl hsub
  · exact Or.inr ⟨himp hissues, hpush⟩

/-- Distinct numbers stay distinct if none is issued that is in use. -/
theorem Renumbers.nodup {issues : Prop} (h : Renumbers w issues xs ys) (hx : xs.Nodup)
    (hfresh : issues → issue w xs ∉ xs) : ys.Nodup := by
  rcases h with hsub | ⟨hissues, rfl⟩
  · exact hx.sublist hsub
  · refine List.nodup_append.mpr ⟨hx, List.nodup_cons.mpr ⟨List.not_mem_nil, List.nodup_nil⟩, ?_⟩
    intro n hn m hm he
    rw [List.mem_singleton.mp hm] at he
    exact hfresh hissues (he ▸ hn)

/-- Runs that issue fewer than `w` numbers keep them increasing. -/
theorem increasing_of_run {σ ε : Type} {step : σ → ε → σ → Prop} {s₀ s : σ} {es : List ε}
    (num : σ → List Nat) (issues : ε → Bool) (h0 : num s₀ = [])
    (hstep : ∀ es s e s', Run step s₀ es s → step s e s' →
      Renumbers w (issues e = true) (num s) (num s'))
    (hr : Run step s₀ es s) (hfew : es.countP issues < w) :
    Increasing (es.countP issues) (num s) := by
  induction hr with
  | start =>
      rw [h0]
      exact Increasing.nil
  | @next es s s' e hr hs ih =>
      rw [List.countP_append] at hfew ⊢
      have hinc := ih (by omega)
      rcases hstep es s e s' hr hs with hsub | ⟨hissues, hpush⟩
      · exact (hinc.sublist hsub).mono (by omega)
      · have hone : [e].countP issues = 1 := by
          rw [List.countP_cons_of_pos hissues]
          rfl
        rw [hone] at hfew ⊢
        rw [hpush]
        exact hinc.push (by omega)

end LibfsNumbering
