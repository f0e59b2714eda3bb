import Mathlib.Data.List.Sort

/-!
# Sorting and cutting

`sortCut r n l` is the first `n` of the sorted list, or all of it when `n` is 0.
It depends on the elements only, not on their order, and elements that a cut of
a part has left out are not missed in a cut of the whole.

* `take_merge_take` — the first `n` of a merge need no more than the first `n`.
* `sortCut_append_left` — cutting a part first changes nothing.
* `sortCut_flatten` — nor does cutting each of several parts.
-/

namespace TfAnalytics.Lib

variable {α : Type}

/-- The first `n` elements; 0 is no limit. -/
def cut (n : Nat) (l : List α) : List α := if n ≠ 0 then l.take n else l

theorem length_cut (n : Nat) (l : List α) :
    (cut n l).length = if n ≠ 0 then min n l.length else l.length := by
  unfold cut
  split
  · rw [List.length_take]
  · rfl

/-- A cut leaves the first element. -/
theorem exists_cut_cons (n : Nat) (a : α) (l : List α) : ∃ l', cut n (a :: l) = a :: l' := by
  cases n with
  | zero => exact ⟨l, rfl⟩
  | succ n => exact ⟨l.take n, rfl⟩

theorem map_cut {β : Type} (f : α → β) (n : Nat) (l : List α) :
    (cut n l).map f = cut n (l.map f) := by
  unfold cut
  split
  · exact List.map_take
  · rfl

theorem cut_sublist (n : Nat) (l : List α) : (cut n l).Sublist l := by
  unfold cut
  split
  · exact List.take_sublist n l
  · exact List.Sublist.refl l

theorem Pairwise.cut {R : α → α → Prop} {l : List α} (h : l.Pairwise R) (n : Nat) :
    (cut n l).Pairwise R :=
  h.sublist (cut_sublist n l)

/-- Cutting each of several parts leaves out some elements. -/
theorem exists_perm_flatten_cut (n : Nat) (parts : List (List α)) :
    ∃ left, parts.flatten.Perm ((parts.map (cut n)).flatten ++ left) := by
  induction parts with
  | nil => exact ⟨[], List.Perm.refl _⟩
  | cons l parts ih =>
    obtain ⟨left, hleft⟩ := ih
    obtain ⟨rest, hrest⟩ := (cut_sublist n l).exists_perm_append
    refine ⟨rest ++ left, ?_⟩
    rw [List.flatten_cons, List.map_cons, List.flatten_cons]
    refine (hrest.append hleft).trans ?_
    rw [List.append_assoc, List.append_assoc]
    refine List.Perm.append_left _ ?_
    rw [← List.append_assoc, ← List.append_assoc]
    exact List.perm_append_comm.append_right _

theorem take_merge_take (le : α → α → Bool) :
    ∀ (n m : Nat) (x y : List α), n ≤ m →
      ((x.take m).merge y le).take n = (x.merge y le).take n
  | 0, _, _, _, _ => by rw [List.take_zero, List.take_zero]
  | n + 1, 0, _, _, h => absurd h (by omega)
  | n + 1, m + 1, [], y, _ => by rw [List.take_nil]
  | n + 1, m + 1, a :: x, [], h => by
    rw [List.merge_right, List.merge_right, List.take_take, Nat.min_eq_left h]
  | n + 1, m + 1, a :: x, b :: y, h => by
    rw [List.take_succ_cons, List.cons_merge_cons, List.cons_merge_cons]
    by_cases hle : le a b = true
    · rw [if_pos hle, if_pos hle, List.take_succ_cons, List.take_succ_cons,
        take_merge_take le n m x (b :: y) (by omega)]
    · have hrest := take_merge_take le n (m + 1) (a :: x) y (by omega)
      rw [List.take_succ_cons] at hrest
      rw [if_neg hle, if_neg hle, List.take_succ_cons, List.take_succ_cons, hrest]

section

variable (r : α → α → Prop) [DecidableRel r]

/-- Sorted by `r` and cut. -/
def sortCut (n : Nat) (l : List α) : List α := cut n (l.insertionSort r)

variable [Std.Total r] [IsTrans α r] [Std.Antisymm r]

/-- The elements in order are the sorted list. -/
theorem eq_insertionSort {l l' : List α} (hsorted : l'.Pairwise r) (hperm : l'.Perm l) :
    l' = l.insertionSort r :=
  (hperm.trans (List.perm_insertionSort r l).symm).eq_of_pairwise' hsorted
    (List.pairwise_insertionSort r l)

theorem insertionSort_congr {l l' : List α} (h : l.Perm l') :
    l.insertionSort r = l'.insertionSort r :=
  eq_insertionSort r (List.pairwise_insertionSort r l) ((List.perm_insertionSort r l).trans h)

theorem sortCut_congr {l l' : List α} (h : l.Perm l') (n : Nat) :
    sortCut r n l = sortCut r n l' := by
  unfold sortCut
  rw [insertionSort_congr r h]

theorem insertionSort_append (a b : List α) :
    (a ++ b).insertionSort r = (a.insertionSort r).merge (b.insertionSort r) (r · ·) := by
  symm
  apply eq_insertionSort r
  · exact (List.pairwise_insertionSort r a).merge (List.pairwise_insertionSort r b)
  · exact (List.merge_perm_append _).trans
      ((List.perm_insertionSort r a).append (List.perm_insertionSort r b))

theorem sortCut_append_left (n : Nat) (a b : List α) :
    sortCut r n (sortCut r n a ++ b) = sortCut r n (a ++ b) := by
  unfold sortCut cut
  by_cases hn : n = 0
  · simp only [hn, ne_eq, not_true_eq_false, if_false]
    exact insertionSort_congr r ((List.perm_insertionSort r a).append_right b)
  · rw [if_pos hn, if_pos hn, if_pos hn]
    have hfirst : ((a.insertionSort r).take n).insertionSort r = (a.insertionSort r).take n :=
      List.Pairwise.insertionSort_eq
        ((List.pairwise_insertionSort r a).sublist (List.take_sublist n _))
    rw [insertionSort_append, hfirst, take_merge_take _ n n _ _ (le_refl n), ← insertionSort_append]

/-- Each part is cut at `n`, or not at all. -/
theorem sortCut_flatten (n : Nat) {parts parts' : List (List α)}
    (h : List.Forall₂ (fun part part' => part' = sortCut r n part ∨ part'.Perm part) parts parts') :
    sortCut r n parts'.flatten = sortCut r n parts.flatten := by
  induction h with
  | nil => rfl
  | @cons part part' parts parts' hpart _ ih =>
    -- the rest may be cut first, as a part of its own
    have hrest : sortCut r n (part ++ parts'.flatten) = sortCut r n (part ++ parts.flatten) := by
      rw [sortCut_congr r List.perm_append_comm, ← sortCut_append_left, ih, sortCut_append_left,
        sortCut_congr r List.perm_append_comm]
    rw [List.flatten_cons, List.flatten_cons, ← hrest]
    rcases hpart with rfl | hperm
    · exact sortCut_append_left r n part parts'.flatten
    · exact sortCut_congr r (hperm.append_right _) n

end

end TfAnalytics.Lib
