import Mathlib.Data.List.Basic

/-!
# Glob patterns

A pattern over any alphabet: one letter of it, `star`, stands for any text, and every other
letter for itself.

* `glob_cons_iff`, `glob_star_iff`: a pattern letter by letter;
* `glob_append_iff`: a pattern that starts with letters that stand for themselves;
* `mem_of_glob`: the letters of the pattern are in every text.
-/

namespace TfAnalytics.Lib

variable {α : Type} {star : α}

/-- The text is the pattern with each `star` replaced by some text. -/
inductive Glob (star : α) : List α → List α → Prop where
  | nil : Glob star [] []
  | letter {c : α} {k u : List α} (hc : c ≠ star) (h : Glob star k u) : Glob star (c :: k) (c :: u)
  | wild {s k u : List α} (h : Glob star k u) : Glob star (star :: k) (s ++ u)

theorem glob_nil_iff {u : List α} : Glob star [] u ↔ u = [] := by
  constructor
  · intro h
    cases h
    rfl
  · intro h
    subst h
    exact .nil

theorem glob_cons_iff {c : α} (hc : c ≠ star) {k u : List α} :
    Glob star (c :: k) u ↔ ∃ t, u = c :: t ∧ Glob star k t := by
  refine ⟨fun h => ?_, fun ⟨t, hu, h⟩ => hu ▸ .letter hc h⟩
  cases h with
  | letter _ h => exact ⟨_, rfl, h⟩
  | wild h => exact absurd rfl hc

theorem glob_star_iff {k u : List α} :
    Glob star (star :: k) u ↔ ∃ s t, u = s ++ t ∧ Glob star k t := by
  refine ⟨fun h => ?_, fun ⟨s, t, hu, h⟩ => hu ▸ .wild h⟩
  cases h with
  | letter hc _ => exact absurd rfl hc
  | wild h => exact ⟨_, _, rfl, h⟩

/-- A `star` takes in what stands before its text. -/
theorem glob_star_append {k u : List α} (s : List α) (h : Glob star (star :: k) u) :
    Glob star (star :: k) (s ++ u) := by
  obtain ⟨s', t, rfl, ht⟩ := glob_star_iff.mp h
  rw [← List.append_assoc]
  exact .wild ht

theorem glob_star_self (u : List α) : Glob star [star] u := by
  rw [← List.append_nil u]
  exact .wild .nil

theorem glob_star_star_iff {k u : List α} :
    Glob star (star :: star :: k) u ↔ Glob star (star :: k) u := by
  refine ⟨fun h => ?_, fun h => .wild (s := []) h⟩
  obtain ⟨s, t, rfl, ht⟩ := glob_star_iff.mp h
  exact glob_star_append s ht

theorem glob_append_iff {letters : List α} (hletters : star ∉ letters) {k u : List α} :
    Glob star (letters ++ k) u ↔ ∃ t, u = letters ++ t ∧ Glob star k t := by
  induction letters generalizing u with
  | nil => simp
  | cons c rest ih =>
    obtain ⟨hc, hrest⟩ := not_or.mp fun h => hletters (List.mem_cons.mpr h)
    rw [List.cons_append, glob_cons_iff (Ne.symm hc)]
    constructor
    · intro ⟨t, hu, ht⟩
      obtain ⟨t', rfl, ht'⟩ := (ih hrest).mp ht
      exact ⟨t', hu, ht'⟩
    · intro ⟨t, hu, ht⟩
      exact ⟨rest ++ t, hu, (ih hrest).mpr ⟨t, rfl, ht⟩⟩

theorem mem_of_glob {k u : List α} (h : Glob star k u) {c : α} (hc : c ∈ k) (hne : c ≠ star) :
    c ∈ u := by
  induction h with
  | nil => cases hc
  | letter _ _ ih =>
    rcases List.mem_cons.mp hc with rfl | hc
    · exact List.mem_cons_self
    · exact List.mem_cons_of_mem _ (ih hc)
  | wild _ ih =>
    rcases List.mem_cons.mp hc with rfl | hc
    · exact absurd rfl hne
    · exact List.mem_append_right _ (ih hc)

/-- The pattern with the stars replaced by nothing. -/
theorem glob_filter [DecidableEq α] (k : List α) : Glob star k (k.filter (· ≠ star)) := by
  induction k with
  | nil => exact .nil
  | cons c rest ih =>
    by_cases hc : c = star
    · subst hc
      rw [List.filter_cons_of_neg (by simp)]
      exact .wild (s := []) ih
    · rw [List.filter_cons_of_pos (by simpa using hc)]
      exact .letter hc ih

end TfAnalytics.Lib
