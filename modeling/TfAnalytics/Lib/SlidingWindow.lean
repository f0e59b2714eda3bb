import Mathlib.Algebra.Order.Monoid.Unbundled.Basic
import Mathlib.Data.List.Basic

/-!
# How many points lie in a window

The points come in order. No window of length `t` has more than `n` of them if and only if
every point is at least `t` before the `n`-th point after it.
-/

namespace TfAnalytics.Lib

variable {α : Type} [LinearOrder α]

theorem getElem_le_of_le {points : List α} (hsorted : points.Pairwise (· ≤ ·)) {i j : Nat}
    (hij : i ≤ j) (hj : j < points.length) : points[i] ≤ points[j] := by
  rcases Nat.lt_or_eq_of_le hij with hlt | rfl
  · exact List.pairwise_iff_getElem.mp hsorted i j (by omega) hj hlt
  · exact le_refl _

variable [Add α]

/-- The points from `x` on, up to but not including `x + t`. -/
def inWindow (x t : α) (points : List α) : List α :=
  points.filter fun p => x ≤ p ∧ p < x + t

/-- A window that begins with a point has the points after it that are near. -/
theorem succ_le_length_inWindow {points : List α} (hsorted : points.Pairwise (· ≤ ·)) {t : α}
    {i n : Nat} (hi : i + n < points.length) (hnear : points[i + n] < points[i] + t) :
    n + 1 ≤ (inWindow points[i] t points).length := by
  have hall : ∀ p ∈ (points.drop i).take (n + 1), points[i] ≤ p ∧ p < points[i] + t := by
    intro p hp
    obtain ⟨k, hk, rfl⟩ := List.mem_iff_getElem.mp hp
    rw [List.length_take, List.length_drop] at hk
    rw [List.getElem_take, List.getElem_drop]
    exact ⟨getElem_le_of_le hsorted (Nat.le_add_right i k) (by omega),
      lt_of_le_of_lt (getElem_le_of_le hsorted (by omega) hi) hnear⟩
  have hsublist : List.Sublist ((points.drop i).take (n + 1)) points :=
    (List.take_sublist _ _).trans (List.drop_sublist _ _)
  have hlength := (hsublist.filter fun p => points[i] ≤ p ∧ p < points[i] + t).length_le
  rw [List.filter_eq_self.mpr fun p hp => decide_eq_true (hall p hp), List.length_take,
    List.length_drop] at hlength
  have hcount : n + 1 ≤ min (n + 1) (points.length - i) := by omega
  exact hcount.trans hlength

theorem length_inWindow_le_iff [AddRightMono α] {points : List α}
    (hsorted : points.Pairwise (· ≤ ·)) (t : α) (n : Nat) :
    (∀ x, (inWindow x t points).length ≤ n) ↔
      ∀ i (h : i + n < points.length), points[i] + t ≤ points[i + n] := by
  constructor
  · intro hcount i hi
    by_contra hnear
    have hmany := succ_le_length_inWindow hsorted hi (not_le.mp hnear)
    have hfew := hcount points[i]
    omega
  · intro hfar x
    induction points with
    | nil => simp [inWindow]
    | cons a points ih =>
      obtain ⟨-, hrest⟩ := List.pairwise_cons.mp hsorted
      by_cases ha : x ≤ a ∧ a < x + t
      · -- nothing from the n-th point after the first one on is in the window
        have hlate : inWindow x t ((a :: points).drop n) = [] := by
          rw [inWindow, List.filter_eq_nil_iff]
          intro p hp
          obtain ⟨k, hk, rfl⟩ := List.mem_iff_getElem.mp hp
          rw [List.length_drop] at hk
          rw [List.getElem_drop]
          have hzero : 0 + n < (a :: points).length := by omega
          have hlast : n + k < (a :: points).length := by omega
          have hle : (a :: points)[0 + n] ≤ (a :: points)[n + k] :=
            getElem_le_of_le hsorted (by omega) hlast
          have hend : x + t ≤ (a :: points)[n + k] :=
            (add_le_add_left ha.1 t).trans ((hfar 0 hzero).trans hle)
          simp [not_lt.mpr hend]
        have hsplit : inWindow x t (a :: points) =
            inWindow x t ((a :: points).take n) ++ inWindow x t ((a :: points).drop n) := by
          rw [inWindow, inWindow, inWindow, ← List.filter_append, List.take_append_drop]
        rw [hsplit, hlate, List.append_nil]
        exact (List.length_filter_le _ _).trans (List.length_take_le n _)
      · have hskip : inWindow x t (a :: points) = inWindow x t points :=
          List.filter_cons_of_neg (by simpa using ha)
        rw [hskip]
        refine ih hrest fun i hi => ?_
        have hnext := hfar (i + 1) (by rw [List.length_cons]; omega)
        simpa [Nat.add_right_comm i 1 n] using hnext

end TfAnalytics.Lib
