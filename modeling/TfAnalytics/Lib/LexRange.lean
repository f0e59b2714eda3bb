import Mathlib

/-!
# Ranges of texts

Lists in lexicographic order, a proper prefix first. The lists from `v` to `v ++ w` are
those that begin with `v` and go on with at most `w`.

* `between_append_iff`: the range from `v` to `v ++ w`;
* `le_singleton_iff`: what is at most one letter;
* `prefix_range_iff`: a letter above all others makes the range that of a prefix.
-/

namespace TfAnalytics.Lib

variable {α : Type} [LinearOrder α]

theorem nil_le_list (s : List α) : [] ≤ s := by
  rw [← not_lt]
  exact List.not_lt_nil s

theorem not_cons_le_nil (a : α) (s : List α) : ¬ a :: s ≤ [] := by
  rw [not_le]
  exact List.Lex.nil

theorem cons_le_cons_list {a b : α} {s t : List α} : a :: s ≤ b :: t ↔ a < b ∨ a = b ∧ s ≤ t := by
  rw [← not_lt, List.cons_lt_cons_iff, ← not_lt, not_or, not_and, not_lt]
  constructor
  · rintro ⟨hle, htail⟩
    rcases lt_or_eq_of_le hle with hlt | rfl
    · exact .inl hlt
    · exact .inr ⟨rfl, htail rfl⟩
  · rintro (hlt | ⟨rfl, htail⟩)
    · exact ⟨hlt.le, fun heq => absurd heq.symm hlt.ne⟩
    · exact ⟨le_refl a, fun _ => htail⟩

/-- Between `v` and `v ++ w` are the lists `v ++ rest` with `rest` at most `w`. -/
theorem between_append_iff {v w s : List α} :
    v ≤ s ∧ s ≤ v ++ w ↔ ∃ rest, s = v ++ rest ∧ rest ≤ w := by
  induction v generalizing s with
  | nil =>
    constructor
    · rintro ⟨-, hle⟩
      exact ⟨s, rfl, hle⟩
    · rintro ⟨rest, rfl, hle⟩
      exact ⟨nil_le_list _, hle⟩
  | cons a v ih =>
    cases s with
    | nil =>
      constructor
      · rintro ⟨hle, -⟩
        exact absurd hle (not_cons_le_nil a v)
      · rintro ⟨rest, heq, -⟩
        cases heq
    | cons b s =>
      rw [List.cons_append, cons_le_cons_list, cons_le_cons_list]
      constructor
      · rintro ⟨hab | ⟨rfl, hv⟩, hba | ⟨heq, hw⟩⟩
        · exact absurd hba (lt_asymm hab)
        · exact absurd heq (ne_of_gt hab)
        · exact absurd hba (lt_irrefl _)
        · obtain ⟨rest, rfl, hrest⟩ := ih.mp ⟨hv, hw⟩
          exact ⟨rest, rfl, hrest⟩
      · rintro ⟨rest, heq, hrest⟩
        obtain ⟨rfl, rfl⟩ := List.cons.inj heq
        obtain ⟨hv, hw⟩ := ih.mpr ⟨rest, rfl, hrest⟩
        exact ⟨.inr ⟨rfl, hv⟩, .inr ⟨rfl, hw⟩⟩

/-- At most one letter: nothing, a smaller letter first, or that letter. -/
theorem le_singleton_iff {c : α} {s : List α} :
    s ≤ [c] ↔ s = [] ∨ (∃ d rest, s = d :: rest ∧ d < c) ∨ s = [c] := by
  cases s with
  | nil => exact ⟨fun _ => .inl rfl, fun _ => nil_le_list _⟩
  | cons d rest =>
    rw [cons_le_cons_list]
    constructor
    · rintro (hlt | ⟨rfl, hle⟩)
      · exact .inr (.inl ⟨d, rest, rfl, hlt⟩)
      · cases rest with
        | nil => exact .inr (.inr rfl)
        | cons e rest => exact absurd hle (not_cons_le_nil e rest)
    · rintro (heq | ⟨d', rest', heq, hlt⟩ | heq)
      · cases heq
      · obtain ⟨rfl, rfl⟩ := List.cons.inj heq
        exact .inl hlt
      · obtain ⟨rfl, rfl⟩ := List.cons.inj heq
        exact .inr ⟨rfl, nil_le_list _⟩

/-- Among lists of letters below `c`, from `v` to `v ++ [c]` are those that begin with `v`. -/
theorem prefix_range_iff {c : α} {v s : List α} (h : ∀ d ∈ s, d < c) :
    v ≤ s ∧ s ≤ v ++ [c] ↔ v <+: s := by
  rw [between_append_iff]
  constructor
  · rintro ⟨rest, rfl, -⟩
    exact List.prefix_append v rest
  · rintro ⟨rest, rfl⟩
    refine ⟨rest, rfl, le_singleton_iff.mpr ?_⟩
    cases rest with
    | nil => exact .inl rfl
    | cons d rest => exact .inr (.inl ⟨d, rest, rfl, h d (by simp)⟩)

end TfAnalytics.Lib
