import Mathlib.Logic.Function.Basic

/-! # Directories

    A directory binds names to the identities of objects.  An object may have
    several names; it is there as long as it has one.  Both directions are
    fields of the structure, so every operation below proves them once. -/

namespace LibfsDirectory

variable {κ ι ο : Type}

/-- Names that lead to objects, none of which is without a name. -/
@[ext] structure Directory (κ ι ο : Type) where
  names : κ → Option ι
  objects : ι → Option ο
  /-- A name leads to an object. -/
  live : ∀ {n i}, names n = some i → objects i ≠ none
  /-- An object has a name. -/
  named : ∀ {i}, objects i ≠ none → ∃ n, names n = some i

namespace Directory

/-- The directory without names. -/
def empty : Directory κ ι ο where
  names := fun _ => none
  objects := fun _ => none
  live := fun h => by cases h
  named := fun h => absurd rfl h

section Operations

variable (d : Directory κ ι ο)

/-- A new object under a new name. -/
def create [DecidableEq κ] [DecidableEq ι] (n : κ) (i : ι) (o : ο) (hn : d.names n = none) :
    Directory κ ι ο where
  names := Function.update d.names n (some i)
  objects := Function.update d.objects i (some o)
  live := by
    intro m j h
    by_cases hj : j = i
    · rw [hj, Function.update_self]
      exact Option.some_ne_none o
    · rw [Function.update_of_ne hj]
      by_cases hm : m = n
      · rw [hm, Function.update_self] at h
        exact absurd (Option.some.inj h).symm hj
      · rw [Function.update_of_ne hm] at h
        exact d.live h
  named := by
    intro j h
    by_cases hj : j = i
    · exact ⟨n, by rw [Function.update_self, hj]⟩
    · rw [Function.update_of_ne hj] at h
      obtain ⟨m, hm⟩ := d.named h
      refine ⟨m, ?_⟩
      rwa [Function.update_of_ne fun he => ?_]
      rw [he, hn] at hm
      cases hm

/-- One more name for an object. -/
def bind [DecidableEq κ] (n : κ) (i : ι) (hn : d.names n = none)
    (hi : d.objects i ≠ none) : Directory κ ι ο where
  names := Function.update d.names n (some i)
  objects := d.objects
  live := by
    intro m j h
    by_cases hm : m = n
    · rw [hm, Function.update_self] at h
      rwa [← Option.some.inj h]
    · rw [Function.update_of_ne hm] at h
      exact d.live h
  named := by
    intro j h
    obtain ⟨m, hm⟩ := d.named h
    refine ⟨m, ?_⟩
    rwa [Function.update_of_ne fun he => ?_]
    rw [he, hn] at hm
    cases hm

/-- Another name in the place of one. -/
def rename [DecidableEq κ] (old new : κ) (ho : d.names old ≠ none)
    (hn : d.names new = none) : Directory κ ι ο where
  names := Function.update (Function.update d.names new (d.names old)) old none
  objects := d.objects
  live := by
    intro m j h
    by_cases hm : m = old
    · rw [hm, Function.update_self] at h
      cases h
    · rw [Function.update_of_ne hm] at h
      by_cases hnew : m = new
      · rw [hnew, Function.update_self] at h
        exact d.live h
      · rw [Function.update_of_ne hnew] at h
        exact d.live h
  named := by
    intro j h
    have hne : new ≠ old := fun he => ho (he ▸ hn)
    obtain ⟨m, hm⟩ := d.named h
    by_cases he : m = old
    · refine ⟨new, ?_⟩
      rw [Function.update_of_ne hne, Function.update_self, ← he, hm]
    · refine ⟨m, ?_⟩
      rwa [Function.update_of_ne he, Function.update_of_ne fun hnew => ?_]
      rw [hnew, hn] at hm
      cases hm

/-- A name is taken away, and with the last one the object. -/
noncomputable def remove [DecidableEq κ] (n : κ) : Directory κ ι ο where
  names := Function.update d.names n none
  objects := fun i =>
    open Classical in if ∃ m, m ≠ n ∧ d.names m = some i then d.objects i else none
  live := by
    intro m j h
    by_cases hm : m = n
    · rw [hm, Function.update_self] at h
      cases h
    · rw [Function.update_of_ne hm] at h
      rw [if_pos ⟨m, hm, h⟩]
      exact d.live h
  named := by
    intro j h
    by_cases hex : ∃ m, m ≠ n ∧ d.names m = some j
    · obtain ⟨m, hm, hj⟩ := hex
      exact ⟨m, by rwa [Function.update_of_ne hm]⟩
    · rw [if_neg hex] at h
      exact absurd rfl h

/-- An object changes and keeps its names. -/
def modify [DecidableEq ι] (i : ι) (f : ο → ο) : Directory κ ι ο where
  names := d.names
  objects := Function.update d.objects i ((d.objects i).map f)
  live := by
    intro m j h
    by_cases hj : j = i
    · rw [hj, Function.update_self]
      exact fun he => d.live (hj ▸ h) (Option.map_eq_none_iff.mp he)
    · rw [Function.update_of_ne hj]
      exact d.live h
  named := by
    intro j h
    by_cases hj : j = i
    · rw [hj, Function.update_self] at h
      rw [hj]
      exact d.named fun he => h (Option.map_eq_none_iff.mpr he)
    · rw [Function.update_of_ne hj] at h
      exact d.named h

/-- Every object is replaced by its image. -/
def map {ο' : Type} (f : ο → ο') : Directory κ ι ο' where
  names := d.names
  objects := fun i => (d.objects i).map f
  live := fun h he => d.live h (Option.map_eq_none_iff.mp he)
  named := fun h => d.named fun he => h (Option.map_eq_none_iff.mpr he)

end Operations

variable {d : Directory κ ι ο} {n old new : κ} {i j : ι} {o : ο} {f : ο → ο}

/-! ## What each operation leaves behind -/

@[simp] theorem names_modify [DecidableEq ι] : (d.modify i f).names = d.names := rfl

@[simp] theorem objects_bind [DecidableEq κ] {hn : d.names n = none} {hi : d.objects i ≠ none} :
    (d.bind n i hn hi).objects = d.objects := rfl

@[simp] theorem objects_rename [DecidableEq κ] {ho : d.names old ≠ none} {hn : d.names new = none} :
    (d.rename old new ho hn).objects = d.objects := rfl

theorem objects_modify [DecidableEq ι] :
    (d.modify i f).objects j = if j = i then (d.objects j).map f else d.objects j := by
  by_cases h : j = i
  · rw [if_pos h, h]
    exact Function.update_self _ _ _
  · rw [if_neg h]
    exact Function.update_of_ne h _ _

theorem objects_create [DecidableEq κ] [DecidableEq ι] {hn : d.names n = none} :
    (d.create n i o hn).objects j = if j = i then some o else d.objects j :=
  Function.update_apply _ _ _ _

/-- What a removal leaves of an object is the object or nothing. -/
theorem objects_remove [DecidableEq κ] (h : (d.remove n).objects j = some o) : d.objects j = some o := by
  by_cases hex : ∃ m, m ≠ n ∧ d.names m = some j
  · exact (if_pos hex).symm.trans h
  · cases (if_neg hex).symm.trans h

/-- A removal that leaves the object a name leaves the object. -/
theorem objects_remove_kept [DecidableEq κ] (hi : d.names n = some i)
    (h : ∃ m, m ≠ n ∧ d.names m = some i) : (d.remove n).objects = d.objects := by
  funext j
  by_cases hex : ∃ m, m ≠ n ∧ d.names m = some j
  · exact if_pos hex
  · refine (if_neg hex).trans ?_
    by_contra hne
    obtain ⟨m, hm⟩ := d.named (Ne.symm hne)
    have hmn : m = n := by
      by_contra hne'
      exact hex ⟨m, hne', hm⟩
    rw [hmn, hi] at hm
    exact hex (Option.some.inj hm ▸ h)

/-- A removal of the last name takes the object away, and no other one. -/
theorem objects_remove_last [DecidableEq κ] [DecidableEq ι] (hi : d.names n = some i)
    (h : ∀ m, d.names m = some i → m = n) :
    (d.remove n).objects = Function.update d.objects i none := by
  funext j
  by_cases hj : j = i
  · rw [hj, Function.update_self]
    refine if_neg ?_
    rintro ⟨m, hm, hmi⟩
    exact hm (h m hmi)
  · rw [Function.update_of_ne hj]
    by_cases hex : ∃ m, m ≠ n ∧ d.names m = some j
    · exact if_pos hex
    · refine (if_neg hex).trans ?_
      by_contra hne
      obtain ⟨m, hm⟩ := d.named (Ne.symm hne)
      have hmn : m = n := by
        by_contra hne'
        exact hex ⟨m, hne', hm⟩
      rw [hmn, hi] at hm
      exact hj (Option.some.inj hm).symm

theorem modify_absent [DecidableEq ι] (h : d.objects i = none) :
    (d.modify i f).objects = d.objects := by
  show Function.update d.objects i ((d.objects i).map f) = d.objects
  rw [h, Option.map_none, ← h, Function.update_eq_self]

/-- It only matters what the objects are. -/
theorem objects_modify_eq [DecidableEq ι] {d' : Directory κ ι ο} (h : d'.objects = d.objects) :
    (d'.modify i f).objects = (d.modify i f).objects := by
  show Function.update d'.objects i ((d'.objects i).map f) = _
  rw [h]
  rfl

/-- A modification keeps what is there there. -/
theorem modify_some [DecidableEq ι] (h : (d.modify i f).objects j = some o) :
    ∃ o₀, d.objects j = some o₀ ∧ o = if j = i then f o₀ else o₀ := by
  rw [objects_modify] at h
  by_cases hj : j = i
  · rw [if_pos hj] at h
    obtain ⟨o₀, ho₀, hfo⟩ := Option.map_eq_some_iff.mp h
    exact ⟨o₀, ho₀, by rw [if_pos hj, hfo]⟩
  · rw [if_neg hj] at h
    exact ⟨o, h, by rw [if_neg hj]⟩

end Directory

end LibfsDirectory
