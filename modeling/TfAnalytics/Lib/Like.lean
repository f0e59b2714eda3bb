import Mathlib.Data.List.Infix

/-!
# LIKE patterns

Patterns as in SQL's `LIKE`, with `%` for any text (there is no `_` here), and
where a pattern occurs inside a text.

* `like_contains_iff`: `%w%` matches the texts in which `w` occurs;
* `like_append_percent_iff_prefix`: `w%` matches the texts that begin with `w`;
* `occurs_of_infix` / `occurs_iff_infix`: among them the texts that contain `w` as it is,
  and no others when `w` has no `%`;
* `like_append`, `like_filter_percent`: patterns in a row, and a `%` that stands for nothing;
* `prefix_of_like`, `like_filter`: what a pattern asks up to its first `%`, and that it does
  not ask for a `%` in the text.
-/

namespace TfAnalytics.Lib

/-- Does the pattern match the whole text? -/
def like : List Char → List Char → Bool
  | [], text => text.isEmpty
  | c :: pattern, text =>
    if c = '%' then text.tails.any (like pattern)
    else match text with
      | [] => false
      | d :: rest => c == d && like pattern rest

/-- Some part of the text matches the pattern. -/
def Occurs (pattern text : List Char) : Prop :=
  ∃ before part after, text = before ++ part ++ after ∧ like pattern part = true

theorem like_cons (c : Char) (pattern text : List Char) : like (c :: pattern) text =
    if c = '%' then text.tails.any (like pattern)
    else match text with
      | [] => false
      | d :: rest => c == d && like pattern rest := rfl

theorem like_percent_iff {pattern text : List Char} :
    like ('%' :: pattern) text = true ↔ ∃ before rest, text = before ++ rest ∧
      like pattern rest = true := by
  rw [like_cons, if_pos rfl, List.any_eq_true]
  constructor
  · rintro ⟨rest, hrest, hlike⟩
    obtain ⟨before, rfl⟩ := (List.mem_tails _ _).mp hrest
    exact ⟨before, rest, rfl, hlike⟩
  · rintro ⟨before, rest, rfl, hlike⟩
    exact ⟨rest, (List.mem_tails _ _).mpr ⟨before, rfl⟩, hlike⟩

theorem like_char_iff {c : Char} (hc : c ≠ '%') {pattern text : List Char} :
    like (c :: pattern) text = true ↔ ∃ rest, text = c :: rest ∧ like pattern rest = true := by
  rw [like_cons, if_neg hc]
  cases text with
  | nil => simp
  | cons d rest =>
    simp only [Bool.and_eq_true, beq_iff_eq]
    constructor
    · rintro ⟨rfl, hlike⟩
      exact ⟨rest, rfl, hlike⟩
    · rintro ⟨rest', heq, hlike⟩
      obtain ⟨rfl, rfl⟩ := List.cons.inj heq
      exact ⟨rfl, hlike⟩

/-- A `%` at the end leaves the rest of the text open. -/
theorem like_append_percent_iff {pattern text : List Char} :
    like (pattern ++ ['%']) text = true ↔ ∃ part after, text = part ++ after ∧
      like pattern part = true := by
  induction pattern generalizing text with
  | nil =>
    rw [List.nil_append, like_percent_iff]
    constructor
    · rintro ⟨before, rest, rfl, -⟩
      exact ⟨[], before ++ rest, rfl, rfl⟩
    · rintro ⟨part, after, rfl, -⟩
      exact ⟨part ++ after, [], (List.append_nil _).symm, rfl⟩
  | cons c pattern ih =>
    rw [List.cons_append]
    by_cases hc : c = '%'
    · subst hc
      rw [like_percent_iff]
      constructor
      · rintro ⟨before, rest, rfl, hlike⟩
        obtain ⟨part, after, rfl, hpart⟩ := ih.mp hlike
        exact ⟨before ++ part, after, (List.append_assoc ..).symm,
          like_percent_iff.mpr ⟨before, part, rfl, hpart⟩⟩
      · rintro ⟨part, after, rfl, hlike⟩
        obtain ⟨before, rest, rfl, hrest⟩ := like_percent_iff.mp hlike
        exact ⟨before, rest ++ after, List.append_assoc .., ih.mpr ⟨rest, after, rfl, hrest⟩⟩
    · rw [like_char_iff hc]
      constructor
      · rintro ⟨rest, rfl, hlike⟩
        obtain ⟨part, after, rfl, hpart⟩ := ih.mp hlike
        exact ⟨c :: part, after, rfl, (like_char_iff hc).mpr ⟨part, rfl, hpart⟩⟩
      · rintro ⟨part, after, rfl, hlike⟩
        obtain ⟨rest, rfl, hrest⟩ := (like_char_iff hc).mp hlike
        exact ⟨rest ++ after, rfl, ih.mpr ⟨rest, after, rfl, hrest⟩⟩

theorem like_contains_iff {pattern text : List Char} :
    like ('%' :: (pattern ++ ['%'])) text = true ↔ Occurs pattern text := by
  rw [like_percent_iff]
  constructor
  · rintro ⟨before, rest, rfl, hlike⟩
    obtain ⟨part, after, rfl, hpart⟩ := like_append_percent_iff.mp hlike
    exact ⟨before, part, after, (List.append_assoc ..).symm, hpart⟩
  · rintro ⟨before, part, after, rfl, hlike⟩
    exact ⟨before, part ++ after, List.append_assoc ..,
      like_append_percent_iff.mpr ⟨part, after, rfl, hlike⟩⟩

/-- Every text matches itself, `%` included. -/
theorem like_self (text : List Char) : like text text = true := by
  induction text with
  | nil => rfl
  | cons c text ih =>
    by_cases hc : c = '%'
    · subst hc
      exact like_percent_iff.mpr ⟨['%'], text, rfl, ih⟩
    · exact (like_char_iff hc).mpr ⟨text, rfl, ih⟩

theorem occurs_of_infix {pattern text : List Char} (h : pattern <:+: text) :
    Occurs pattern text := by
  obtain ⟨before, after, rfl⟩ := h
  exact ⟨before, pattern, after, rfl, like_self pattern⟩

/-- Without a `%` only the pattern itself matches. -/
theorem like_iff_eq {pattern text : List Char} (h : '%' ∉ pattern) :
    like pattern text = true ↔ text = pattern := by
  refine ⟨fun hlike => ?_, fun heq => heq ▸ like_self pattern⟩
  induction pattern generalizing text with
  | nil => simpa [like] using hlike
  | cons c pattern ih =>
    obtain ⟨rest, rfl, hrest⟩ := (like_char_iff (fun hc => h (by simp [hc]))).mp hlike
    rw [ih (fun hm => h (List.mem_cons_of_mem _ hm)) hrest]

/-- A pattern `w%` matches the texts that begin with `w`. -/
theorem like_append_percent_iff_prefix {pattern text : List Char} (h : '%' ∉ pattern) :
    like (pattern ++ ['%']) text = true ↔ pattern <+: text := by
  rw [like_append_percent_iff]
  constructor
  · rintro ⟨part, after, rfl, hlike⟩
    rw [(like_iff_eq h).mp hlike]
    exact List.prefix_append pattern after
  · rintro ⟨after, rfl⟩
    exact ⟨pattern, after, rfl, like_self pattern⟩

/-- Patterns one after the other match texts one after the other. -/
theorem like_append {pattern pattern' text text' : List Char} (h : like pattern text = true)
    (h' : like pattern' text' = true) : like (pattern ++ pattern') (text ++ text') = true := by
  induction pattern generalizing text with
  | nil =>
    obtain rfl : text = [] := by simpa [like] using h
    exact h'
  | cons c pattern ih =>
    rw [List.cons_append]
    by_cases hc : c = '%'
    · subst hc
      obtain ⟨before, rest, rfl, hrest⟩ := like_percent_iff.mp h
      exact like_percent_iff.mpr ⟨before, rest ++ text', List.append_assoc .., ih hrest⟩
    · obtain ⟨rest, rfl, hrest⟩ := (like_char_iff hc).mp h
      exact (like_char_iff hc).mpr ⟨rest ++ text', rfl, ih hrest⟩

/-- A `%` also stands for nothing. -/
theorem like_filter_percent (pattern : List Char) :
    like pattern (pattern.filter (· ≠ '%')) = true := by
  induction pattern with
  | nil => rfl
  | cons c pattern ih =>
    by_cases hc : c = '%'
    · subst hc
      exact like_percent_iff.mpr ⟨[], _, by simp, ih⟩
    · exact (like_char_iff hc).mpr ⟨_, by simp [hc], ih⟩

/-- What comes before the first `%` is there as it is. -/
theorem prefix_of_like {head rest text : List Char} (h : '%' ∉ head)
    (hlike : like (head ++ rest) text = true) : head <+: text := by
  induction head generalizing text with
  | nil => exact List.nil_prefix
  | cons c head ih =>
    obtain ⟨text', rfl, hrest⟩ := (like_char_iff fun hc => h (by simp [hc])).mp hlike
    rw [List.cons_prefix_cons]
    exact ⟨rfl, ih (fun hm => h (List.mem_cons_of_mem _ hm)) hrest⟩

/-- A `%` in the text is only matched by a `%`, which may stand for nothing. -/
theorem like_filter {pattern text : List Char} (h : like pattern text = true) :
    like pattern (text.filter (· ≠ '%')) = true := by
  induction pattern generalizing text with
  | nil =>
    obtain rfl : text = [] := by simpa [like] using h
    rfl
  | cons c pattern ih =>
    by_cases hc : c = '%'
    · subst hc
      obtain ⟨before, rest, rfl, hrest⟩ := like_percent_iff.mp h
      exact like_percent_iff.mpr ⟨_, _, List.filter_append .., ih hrest⟩
    · obtain ⟨rest, rfl, hrest⟩ := (like_char_iff hc).mp h
      exact (like_char_iff hc).mpr ⟨_, by simp [hc], ih hrest⟩

theorem occurs_iff_infix {pattern text : List Char} (h : '%' ∉ pattern) :
    Occurs pattern text ↔ pattern <:+: text := by
  refine ⟨?_, occurs_of_infix⟩
  rintro ⟨before, part, after, rfl, hlike⟩
  rw [(like_iff_eq h).mp hlike]
  exact ⟨before, after, rfl⟩

end TfAnalytics.Lib
