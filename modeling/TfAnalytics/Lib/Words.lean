import TfAnalytics.Lib.Delimited

/-!
# Cutting a text at a word

`pieces` is Python's `split` with a separator of several letters: the occurrences of the
word are taken from the left, and they do not overlap. Where texts are joined by the word
between blanks, a letter that is not in the word, cutting gives the texts back with blanks
around them, unless the word occurs in one of them.

* `pieces_intercalate`: cutting inverts joining, up to blanks;
* `free_of_length_pieces`: a text with the word in it makes more pieces;
* `cutWord_fst_append`: the first piece ends where the word occurs first;
* `not_infix_of_mem_pieces`: the word is in no piece.
-/

namespace TfAnalytics.Lib

variable {α : Type} {w : List α} {c : α}

-- ---------------------------------------------------------------------------
-- Texts joined by the word between blanks
-- ---------------------------------------------------------------------------

/-- Blanks around a text. -/
def Padded (c : α) (p x : List α) : Prop :=
  ∃ i j, p = List.replicate i c ++ (x ++ List.replicate j c)

/-- A beginning of two texts with a letter between ends in the one or in the other. -/
theorem prefix_append_cons_cases {s x y : List α} (h : s <+: x ++ c :: y) :
    s <+: x ∨ ∃ s', s = x ++ c :: s' ∧ s' <+: y := by
  rcases List.prefix_or_prefix_of_prefix h (List.prefix_append x (c :: y)) with hstart | ⟨z, rfl⟩
  · exact .inl hstart
  · cases z with
    | nil =>
      exact .inl ((List.append_nil x).symm ▸ List.prefix_refl x)
    | cons d z =>
      obtain ⟨rfl, hz⟩ := List.cons_prefix_cons.mp ((List.prefix_append_right_inj x).mp h)
      exact .inr ⟨z, rfl, hz⟩

/-- The word does not go across a letter that is not in it. -/
theorem prefix_append_cons_iff (hc : c ∉ w) {x y : List α} : w <+: x ++ c :: y ↔ w <+: x := by
  refine ⟨fun h => ?_, fun h => h.trans (List.prefix_append x _)⟩
  rcases prefix_append_cons_cases h with hstart | ⟨z, rfl, -⟩
  · exact hstart
  · exact absurd (List.mem_append_right x List.mem_cons_self) hc

theorem infix_replicate_append_iff (hw : w ≠ []) (hc : c ∉ w) (i : Nat) (x : List α) :
    w <:+: List.replicate i c ++ x ↔ w <:+: x := by
  induction i with
  | zero => rfl
  | succ i ih =>
    have hcons := @infix_append_cons_iff _ c w [] (List.replicate i c ++ x) hc
    rw [List.replicate_succ, List.cons_append, ← ih]
    simpa [hw] using hcons

theorem infix_append_replicate_iff (hw : w ≠ []) (hc : c ∉ w) (x : List α) (j : Nat) :
    w <:+: x ++ List.replicate j c ↔ w <:+: x := by
  cases j with
  | zero => simp
  | succ j =>
    have hblanks := infix_replicate_append_iff hw hc j []
    rw [List.append_nil] at hblanks
    rw [List.replicate_succ, infix_append_cons_iff hc, hblanks]
    simp [hw]

/-- Blanks do not make the word occur. -/
theorem Padded.infix_iff {p x : List α} (h : Padded c p x) (hw : w ≠ []) (hc : c ∉ w) :
    w <:+: p ↔ w <:+: x := by
  obtain ⟨i, j, rfl⟩ := h
  rw [infix_replicate_append_iff hw hc, infix_append_replicate_iff hw hc]

/-- The texts joined by the word with a blank on either side. -/
def joinWords (c : α) (w : List α) (xs : List (List α)) : List α :=
  List.intercalate (c :: (w ++ [c])) xs

theorem joinWords_cons_cons (x y : List α) (xs : List (List α)) :
    joinWords c w (x :: y :: xs) = x ++ c :: (w ++ c :: joinWords c w (y :: xs)) := by
  unfold joinWords
  rw [List.intercalate_cons_cons]
  simp

theorem joinWords_singleton (x : List α) : joinWords c w [x] = x := by
  simp [joinWords]

/-- What has no blank in it, and is not in the word, is in one of the texts. -/
theorem infix_joinWords_iff {v : List α} (hv : v ≠ []) (hc : c ∉ v) (hvw : ¬ v <:+: w)
    (xs : List (List α)) : v <:+: joinWords c w xs ↔ ∃ x ∈ xs, v <:+: x := by
  induction xs with
  | nil => simp [joinWords, hv]
  | cons x xs ih =>
    cases xs with
    | nil => simp [joinWords_singleton]
    | cons y xs =>
      rw [joinWords_cons_cons, infix_append_cons_iff hc, infix_append_cons_iff hc,
        or_iff_right hvw, ih]
      simp

-- ---------------------------------------------------------------------------
-- Cutting
-- ---------------------------------------------------------------------------

variable [DecidableEq α]

/-- The first piece and the other ones; the first letters are skipped. -/
def cutWord (w : List α) : Nat → List α → List α × List (List α)
  | _, [] => ([], [])
  | k + 1, _ :: s => cutWord w k s
  | 0, c :: s =>
    if w <+: c :: s then
      ([], (cutWord w (w.length - 1) s).1 :: (cutWord w (w.length - 1) s).2)
    else (c :: (cutWord w 0 s).1, (cutWord w 0 s).2)

def pieces (w s : List α) : List (List α) := (cutWord w 0 s).1 :: (cutWord w 0 s).2

theorem cutWord_skip (z y : List α) : cutWord w z.length (z ++ y) = cutWord w 0 y := by
  induction z with
  | nil => rfl
  | cons d z ih => exact ih

theorem cutWord_of_start {s : List α} (h : w <+: c :: s) :
    cutWord w 0 (c :: s) =
      ([], (cutWord w (w.length - 1) s).1 :: (cutWord w (w.length - 1) s).2) := by
  rw [cutWord, if_pos h]

theorem cutWord_of_not_start {s : List α} (h : ¬ w <+: c :: s) :
    cutWord w 0 (c :: s) = (c :: (cutWord w 0 s).1, (cutWord w 0 s).2) := by
  rw [cutWord, if_neg h]

/-- At the word itself a piece ends. -/
theorem cutWord_word (hw : w ≠ []) (y : List α) : cutWord w 0 (w ++ y) = ([], pieces w y) := by
  obtain ⟨d, w', rfl⟩ := List.exists_cons_of_ne_nil hw
  have hstart : d :: w' <+: d :: (w' ++ y) := List.prefix_append (d :: w') y
  rw [List.cons_append, cutWord_of_start hstart]
  show ([], (cutWord (d :: w') w'.length (w' ++ y)).1 ::
    (cutWord (d :: w') w'.length (w' ++ y)).2) = _
  rw [cutWord_skip]
  rfl

theorem cutWord_of_free {x : List α} (h : ¬ w <:+: x) : cutWord w 0 x = (x, []) := by
  induction x with
  | nil => rfl
  | cons d x ih =>
    rw [List.infix_cons_iff, not_or] at h
    rw [cutWord_of_not_start h.1, ih h.2]

/-- What is before a letter that is not in the word goes to the first piece. -/
theorem cutWord_append_cons (hw : w ≠ []) (hc : c ∉ w) {x : List α} (h : ¬ w <:+: x) (y : List α) :
    cutWord w 0 (x ++ c :: y) = (x ++ c :: (cutWord w 0 y).1, (cutWord w 0 y).2) := by
  induction x with
  | nil =>
    have hnot : ¬ w <+: c :: y := by
      intro hstart
      obtain ⟨d, w', rfl⟩ := List.exists_cons_of_ne_nil hw
      obtain ⟨rfl, -⟩ := List.cons_prefix_cons.mp hstart
      exact hc List.mem_cons_self
    exact cutWord_of_not_start hnot
  | cons d x ih =>
    rw [List.infix_cons_iff, not_or] at h
    have hnot : ¬ w <+: d :: (x ++ c :: y) := by
      rw [← List.cons_append, prefix_append_cons_iff hc]
      exact h.1
    rw [List.cons_append, cutWord_of_not_start hnot, ih h.2]
    rfl

/-- The texts before and after such a letter are cut on their own. -/
theorem length_cutWord_append_cons (hw : w ≠ []) (hc : c ∉ w) (x y : List α) {k : Nat}
    (hk : k ≤ x.length) :
    (cutWord w k (x ++ c :: y)).2.length = (cutWord w k x).2.length + (cutWord w 0 y).2.length := by
  induction x generalizing k with
  | nil =>
    obtain rfl : k = 0 := by simpa using hk
    rw [cutWord_append_cons hw hc (by simpa using hw) y]
    simp [cutWord]
  | cons d x ih =>
    cases k with
    | succ k => exact ih (by simpa using hk)
    | zero =>
      by_cases hstart : w <+: d :: x
      · have hlength : w.length - 1 ≤ x.length := by
          have := hstart.length_le
          rw [List.length_cons] at this
          omega
        have hlong : w <+: d :: (x ++ c :: y) := hstart.trans (List.prefix_append (d :: x) _)
        rw [List.cons_append, cutWord_of_start hstart, cutWord_of_start hlong]
        simp only [List.length_cons, ih hlength]
        omega
      · have hlong : ¬ w <+: d :: (x ++ c :: y) := by
          rw [← List.cons_append, prefix_append_cons_iff hc]
          exact hstart
        rw [List.cons_append, cutWord_of_not_start hstart, cutWord_of_not_start hlong]
        exact ih (Nat.zero_le _)

/-- Where there is one piece the word does not occur. -/
theorem not_infix_of_cutWord_snd (hw : w ≠ []) {x : List α} (h : (cutWord w 0 x).2 = []) :
    ¬ w <:+: x := by
  induction x with
  | nil => simpa using hw
  | cons d x ih =>
    by_cases hstart : w <+: d :: x
    · rw [cutWord_of_start hstart] at h
      cases h
    · rw [cutWord_of_not_start hstart] at h
      rw [List.infix_cons_iff, not_or]
      exact ⟨hstart, ih h⟩

theorem cutWord_fst_prefix (w x : List α) : (cutWord w 0 x).1 <+: x := by
  induction x with
  | nil => exact List.prefix_refl _
  | cons d x ih =>
    by_cases hstart : w <+: d :: x
    · rw [cutWord_of_start hstart]
      exact List.nil_prefix
    · rw [cutWord_of_not_start hstart]
      exact List.cons_prefix_cons.mpr ⟨rfl, ih⟩

/-- The word is in no piece. -/
theorem not_infix_of_mem_pieces (hw : w ≠ []) {x p : List α} (h : p ∈ pieces w x) : ¬ w <:+: p := by
  have hall : ∀ (x : List α) (k : Nat), ¬ w <:+: (cutWord w k x).1 ∧
      ∀ p ∈ (cutWord w k x).2, ¬ w <:+: p := by
    intro x
    induction x with
    | nil => exact fun k => by cases k <;> simpa [cutWord] using hw
    | cons d x ih =>
      intro k
      cases k with
      | succ k => exact ih k
      | zero =>
        by_cases hstart : w <+: d :: x
        · rw [cutWord_of_start hstart]
          exact ⟨by simpa using hw, List.forall_mem_cons.mpr (ih (w.length - 1))⟩
        · rw [cutWord_of_not_start hstart]
          refine ⟨?_, (ih 0).2⟩
          rw [List.infix_cons_iff, not_or]
          refine ⟨fun hpiece => hstart (hpiece.trans ?_), (ih 0).1⟩
          exact List.cons_prefix_cons.mpr ⟨rfl, cutWord_fst_prefix w x⟩
  rcases List.mem_cons.mp h with rfl | h
  · exact (hall x 0).1
  · exact (hall x 0).2 p h

/-- The first piece ends where the word occurs first, whatever follows. -/
theorem cutWord_fst_append {x : List α} (h : w <:+: x) (y : List α) :
    (cutWord w 0 (x ++ y)).1 = (cutWord w 0 x).1 ∧ (cutWord w 0 x).1 ++ w <+: x := by
  induction x with
  | nil =>
    obtain rfl : w = [] := by simpa using h
    cases y with
    | nil => exact ⟨rfl, List.nil_prefix⟩
    | cons d y =>
      rw [List.nil_append, cutWord_of_start List.nil_prefix]
      exact ⟨rfl, List.nil_prefix⟩
  | cons d x ih =>
    by_cases hstart : w <+: d :: x
    · have hlong : w <+: d :: (x ++ y) := hstart.trans (List.prefix_append (d :: x) y)
      rw [List.cons_append, cutWord_of_start hstart, cutWord_of_start hlong]
      exact ⟨rfl, hstart⟩
    · have hword : w <:+: x := (List.infix_cons_iff.mp h).resolve_left hstart
      obtain ⟨hfst, hend⟩ := ih hword
      have hlong : ¬ w <+: d :: (x ++ y) := by
        intro hlong
        have hle : w.length ≤ (d :: x).length := by
          have := hword.length_le
          rw [List.length_cons]
          omega
        exact hstart (List.prefix_of_prefix_length_le hlong (List.prefix_append (d :: x) y) hle)
      rw [List.cons_append, cutWord_of_not_start hstart, cutWord_of_not_start hlong, hfst]
      exact ⟨rfl, List.cons_prefix_cons.mpr ⟨rfl, hend⟩⟩

theorem cutWord_joinWords (hw : w ≠ []) (hc : c ∉ w) {x : List α} (h : ¬ w <:+: x)
    (rest : List α) :
    pieces w (x ++ c :: (w ++ c :: rest)) = (x ++ [c]) :: pieces w (c :: rest) := by
  rw [pieces, cutWord_append_cons hw hc h, cutWord_word hw]

/-- Cutting at the word gives the texts back, with blanks around them. -/
theorem pieces_intercalate (hw : w ≠ []) (hc : c ∉ w) {xs : List (List α)} (hne : xs ≠ [])
    (hfree : ∀ x ∈ xs, ¬ w <:+: x) (i j : Nat) :
    List.Forall₂ (Padded c)
      (pieces w (List.replicate i c ++ (joinWords c w xs ++ List.replicate j c))) xs := by
  induction xs generalizing i with
  | nil => exact absurd rfl hne
  | cons x xs ih =>
    have hx := hfree x List.mem_cons_self
    cases xs with
    | nil =>
      have hpadded : Padded c (List.replicate i c ++ (x ++ List.replicate j c)) x := ⟨i, j, rfl⟩
      rw [joinWords_singleton, pieces,
        cutWord_of_free (fun h => hx ((hpadded.infix_iff hw hc).mp h))]
      exact .cons hpadded .nil
    | cons y xs =>
      have hfirst : ¬ w <:+: List.replicate i c ++ x := fun h =>
        hx ((infix_replicate_append_iff hw hc i x).mp h)
      have hrest := ih (by simp) (fun z hz => hfree z (List.mem_cons_of_mem x hz)) 1
      have htext : List.replicate i c ++ (joinWords c w (x :: y :: xs) ++ List.replicate j c) =
          (List.replicate i c ++ x) ++
            c :: (w ++ c :: (joinWords c w (y :: xs) ++ List.replicate j c)) := by
        rw [joinWords_cons_cons]
        simp
      rw [htext, cutWord_joinWords hw hc hfirst]
      exact .cons ⟨i, 1, by simp⟩ hrest

/-- As many pieces as texts are made only if the word occurs in none of them. -/
theorem free_of_length_pieces (hw : w ≠ []) (hc : c ∉ w) {xs : List (List α)} (hne : xs ≠ []) :
    xs.length ≤ (pieces w (joinWords c w xs)).length ∧
      ((pieces w (joinWords c w xs)).length = xs.length → ∀ x ∈ xs, ¬ w <:+: x) := by
  induction xs with
  | nil => exact absurd rfl hne
  | cons x xs ih =>
    cases xs with
    | nil =>
      rw [joinWords_singleton]
      refine ⟨by simp [pieces], fun h y hy => ?_⟩
      obtain rfl := List.mem_singleton.mp hy
      exact not_infix_of_cutWord_snd hw (List.eq_nil_of_length_eq_zero (by simpa [pieces] using h))
    | cons y xs =>
      obtain ⟨hle, hfree⟩ := ih (by simp)
      have hcount : (pieces w (joinWords c w (x :: y :: xs))).length =
          1 + (cutWord w 0 x).2.length + (pieces w (joinWords c w (y :: xs))).length := by
        have hfirst := length_cutWord_append_cons hw hc x (w ++ c :: joinWords c w (y :: xs))
          (Nat.zero_le _)
        have hnext : (cutWord w 0 (c :: joinWords c w (y :: xs))).2 =
            (cutWord w 0 (joinWords c w (y :: xs))).2 := by
          have hnil : ¬ w <:+: [] := by simpa using hw
          rw [← List.nil_append (c :: joinWords c w (y :: xs)), cutWord_append_cons hw hc hnil]
        rw [cutWord_word hw] at hfirst
        rw [joinWords_cons_cons]
        simp only [pieces, List.length_cons, hnext] at hfirst ⊢
        omega
      rw [hcount]
      simp only [List.length_cons] at hle hfree ⊢
      refine ⟨by omega, fun h z hz => ?_⟩
      rcases List.mem_cons.mp hz with rfl | hz
      · exact not_infix_of_cutWord_snd hw (List.eq_nil_of_length_eq_zero (by omega))
      · exact hfree (by omega) z hz

end TfAnalytics.Lib
