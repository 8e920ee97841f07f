import Libfs.LinkedTable
import Mathlib.Logic.Function.Basic
import Mathlib.Data.List.Nodup

/-! # A table as a partial map

    The live nodes of a table carry keys; when no two carry the same, the
    table stands for a partial map from keys to what its values stand for.
    The relation between a value and what it stands for is a parameter. -/

namespace LibfsHeap

variable {α β κ : Type}

/-- The keys of the live nodes. -/
def Table.keys (key : α → κ) (t : Table α) : List κ := t.live.map fun p => key p.2

/-- The table stands for the map. -/
structure Table.Denotes (key : α → κ) (R : α → β → Prop) (t : Table α) (m : κ → Option β) :
    Prop where
  held : ∀ p ∈ t.live, ∃ y, m (key p.2) = some y ∧ R p.2 y
  only : ∀ k, m k ≠ none → ∃ p ∈ t.live, key p.2 = k

theorem Table.denotes_empty (key : α → κ) (R : α → β → Prop) :
    Table.Denotes key R Table.empty fun _ => none where
  held := fun _ h => by cases h
  only := fun _ h => absurd rfl h

section Denotes

variable {key : α → κ} {R Q : α → β → Prop} {t t' : Table α} {m : κ → Option β} {k : κ}
  {l r : List (Nat × α)} {a : Nat} {v v' : α} {y z : β}

/-- An address holds one value, so a key leads to one address. -/
theorem Table.key_inj (hdist : (t.keys key).Nodup) {p q : Nat × α} (hp : p ∈ t.live)
    (hq : q ∈ t.live) (he : key p.2 = key q.2) : p = q :=
  List.inj_on_of_nodup_map hdist hp hq he

theorem Table.Denotes.at (h : t.Denotes key R m) (hv : (a, v) ∈ t.live) (hy : m (key v) = some y) :
    R v y := by
  obtain ⟨z, hz, hr⟩ := h.held (a, v) hv
  obtain rfl : y = z := Option.some.inj (hy.symm.trans hz)
  exact hr

/-- What the map has at a key was found in the table. -/
theorem Table.Denotes.found [DecidableEq κ] (h : t.Denotes key R m) (hy : m k = some y) :
    ∃ l r a v, t.Found (fun v => key v = k) l r a v ∧ R v y := by
  obtain ⟨p, hp, hk⟩ := h.only k (by rw [hy]; exact Option.some_ne_none y)
  cases hfind : t.live.find? fun p => decide (key p.2 = k) with
  | none => exact absurd (decide_eq_true hk) (List.find?_eq_none.mp hfind p hp)
  | some q =>
      obtain ⟨hq, l, r, hs, hl⟩ := List.find?_eq_some_iff_append.mp hfind
      have hkey : key q.2 = k := of_decide_eq_true hq
      have hmem : (q.1, q.2) ∈ t.live := hs ▸ List.mem_append_right _ (List.mem_cons_self ..)
      refine ⟨l, r, q.1, q.2, ⟨hs, hq, fun p hp => ?_⟩, h.at hmem (hkey ▸ hy)⟩
      exact Bool.not_eq_true' _ ▸ hl p hp

/-- A key the map does not have is nowhere in the table. -/
theorem Table.Denotes.absent (h : t.Denotes key R m) (hk : m k = none) :
    ∀ p ∈ t.live, key p.2 ≠ k := by
  intro p hp he
  obtain ⟨y, hy, -⟩ := h.held p hp
  rw [he, hk] at hy
  cases hy

/-- One value changes and keeps its key; of the others only the relation may
    change. -/
theorem Table.Denotes.replaced [DecidableEq κ] (h : t.Denotes key R m)
    (hdist : (t.keys key).Nodup) (hup : t.Replaced t' a v v') (hkey : key v' = key v)
    (hv : Q v' z) (hothers : ∀ p ∈ t.live, p.1 ≠ a → ∀ y, R p.2 y → Q p.2 y) :
    t'.Denotes key Q (Function.update m (key v) (some z)) where
  held := by
    intro p hp
    rcases hup.mem.mp hp with ⟨hne, hp⟩ | rfl
    · have hk : key p.2 ≠ key v := fun he =>
        hne (congrArg Prod.fst (Table.key_inj hdist hp hup.old he))
      obtain ⟨y, hy, hr⟩ := h.held p hp
      exact ⟨y, by rw [Function.update_of_ne hk, hy], hothers p hp hne y hr⟩
    · exact ⟨z, by rw [hkey, Function.update_self], hv⟩
  only := by
    intro k hk
    by_cases he : k = key v
    · exact ⟨(a, v'), hup.mem.mpr (Or.inr rfl), hkey.trans he.symm⟩
    · rw [Function.update_of_ne he] at hk
      obtain ⟨⟨b, w⟩, hp, hkp⟩ := h.only k hk
      refine ⟨(b, w), hup.mem.mpr (Or.inl ⟨fun hb => he ?_, hp⟩), hkp⟩
      cases hb
      rw [Heap.live_unique hup.old hp]
      exact hkp.symm

/-- One value gets a key nobody has. -/
theorem Table.Denotes.rekeyed [DecidableEq κ] (h : t.Denotes key R m)
    (hdist : (t.keys key).Nodup) (hup : t.Replaced t' a v v') (hfree : m (key v') = none)
    (hv : R v' z) :
    t'.Denotes key R (Function.update (Function.update m (key v') (some z)) (key v) none) where
  held := by
    intro p hp
    rcases hup.mem.mp hp with ⟨hne, hp⟩ | rfl
    · have hold : key p.2 ≠ key v := fun he =>
        hne (congrArg Prod.fst (Table.key_inj hdist hp hup.old he))
      obtain ⟨y, hy, hr⟩ := h.held p hp
      exact ⟨y, by rw [Function.update_of_ne hold, Function.update_of_ne (h.absent hfree p hp), hy],
        hr⟩
    · have hne : key v' ≠ key v := fun he => h.absent hfree _ hup.old he.symm
      exact ⟨z, by rw [Function.update_of_ne hne, Function.update_self], hv⟩
  only := by
    intro k hk
    by_cases hold : k = key v
    · rw [hold, Function.update_self] at hk
      exact absurd rfl hk
    · rw [Function.update_of_ne hold] at hk
      by_cases hnew : k = key v'
      · exact ⟨(a, v'), hup.mem.mpr (Or.inr rfl), hnew.symm⟩
      · rw [Function.update_of_ne hnew] at hk
        obtain ⟨⟨b, w⟩, hp, hkp⟩ := h.only k hk
        refine ⟨(b, w), hup.mem.mpr (Or.inl ⟨fun hb => hold ?_, hp⟩), hkp⟩
        cases hb
        rw [Heap.live_unique hup.old hp]
        exact hkp.symm

/-- A node with a key of its own is hung behind. -/
theorem Table.Denotes.pushed [DecidableEq κ] (h : t.Denotes key R m) (hp : t.Pushed t' a v)
    (hfresh : ∀ p ∈ t.live, key p.2 ≠ key v) (hv : R v y) :
    t'.Denotes key R (Function.update m (key v) (some y)) where
  held := by
    intro p hmem
    rcases hp.mem.mp hmem with hmem | rfl
    · obtain ⟨z, hz, hr⟩ := h.held p hmem
      exact ⟨z, by rw [Function.update_of_ne (hfresh p hmem), hz], hr⟩
    · exact ⟨y, Function.update_self _ _ _, hv⟩
  only := by
    intro k hk
    by_cases he : k = key v
    · exact ⟨(a, v), hp.mem_new, he.symm⟩
    · rw [Function.update_of_ne he] at hk
      obtain ⟨p, hmem, hkp⟩ := h.only k hk
      exact ⟨p, hp.mem.mpr (Or.inl hmem), hkp⟩

/-- A node is taken out. -/
theorem Table.Denotes.dropped [DecidableEq κ] (h : t.Denotes key R m)
    (hdist : (t.keys key).Nodup) (hv : (a, v) ∈ t.live)
    (hmem : ∀ p, p ∈ t'.live ↔ p.1 ≠ a ∧ p ∈ t.live) :
    t'.Denotes key R (Function.update m (key v) none) where
  held := by
    intro p hp
    obtain ⟨hne, hp⟩ := (hmem p).mp hp
    have hk : key p.2 ≠ key v := fun he =>
      hne (congrArg Prod.fst (Table.key_inj hdist hp hv he))
    obtain ⟨y, hy, hr⟩ := h.held p hp
    exact ⟨y, by rw [Function.update_of_ne hk, hy], hr⟩
  only := by
    intro k hk
    by_cases he : k = key v
    · rw [he, Function.update_self] at hk
      exact absurd rfl hk
    · rw [Function.update_of_ne he] at hk
      obtain ⟨⟨b, w⟩, hp, hkp⟩ := h.only k hk
      refine ⟨(b, w), (hmem _).mpr ⟨fun hb => he ?_, hp⟩, hkp⟩
      cases hb
      rw [Heap.live_unique hv hp]
      exact hkp.symm

/-- The relation may be widened. -/
theorem Table.Denotes.mono (h : t.Denotes key R m) (hr : ∀ p ∈ t.live, ∀ y, R p.2 y → Q p.2 y) :
    t.Denotes key Q m where
  held := fun p hp =>
    let ⟨y, hy, hry⟩ := h.held p hp
    ⟨y, hy, hr p hp y hry⟩
  only := h.only

/-- Every entry is replaced by one with the same key. -/
theorem Table.Denotes.mapped {γ : Type} {S : α → γ → Prop} {g : α → α} {f : β → γ}
    (h : t.Denotes key R m) (hlive : t'.live.map Prod.snd = (t.live.map Prod.snd).map g)
    (hkey : ∀ x, key (g x) = key x) (hr : ∀ x y, R x y → S (g x) (f y)) :
    t'.Denotes key S fun k => (m k).map f where
  held := by
    intro p hp
    have hmem : p.2 ∈ (t.live.map Prod.snd).map g := hlive ▸ List.mem_map_of_mem hp
    rw [List.map_map] at hmem
    obtain ⟨q, hq, he⟩ := List.mem_map.mp hmem
    obtain ⟨y, hy, hry⟩ := h.held q hq
    rw [← he]
    exact ⟨f y, by rw [Function.comp_apply, hkey, hy]; rfl, hr q.2 y hry⟩
  only := by
    intro k hk
    obtain ⟨q, hq, rfl⟩ := h.only k fun he => hk (by rw [he]; rfl)
    have hmem : g q.2 ∈ t'.live.map Prod.snd := by
      rw [hlive, List.map_map]
      exact List.mem_map_of_mem hq
    obtain ⟨p, hp, he⟩ := List.mem_map.mp hmem
    exact ⟨p, hp, by rw [he, hkey]⟩

end Denotes

end LibfsHeap
