import Mathlib.Logic.Function.Basic

/-!
# Fields that are written over

A sequence of writes to the fields of a record. A field then has the last value that was
written to it, or its old value.

* `applyWrites_apply` — the value of a field after the writes;
* `observed_eq_iff` — when earlier writes do not show behind later ones.
-/

namespace TfAnalytics.Lib

variable {κ β γ : Type} [DecidableEq κ]

def applyWrites (fields : κ → β) (writes : List (κ × β)) : κ → β :=
  writes.foldl (fun fields w => Function.update fields w.1 w.2) fields

/-- The last value that is written to a field. -/
def lastWrite (k : κ) : List (κ × β) → Option β
  | [] => none
  | w :: writes => (lastWrite k writes).or (if w.1 = k then some w.2 else none)

theorem applyWrites_append (fields : κ → β) (writes writes' : List (κ × β)) :
    applyWrites fields (writes ++ writes') = applyWrites (applyWrites fields writes) writes' :=
  List.foldl_append

theorem lastWrite_append (k : κ) (writes writes' : List (κ × β)) :
    lastWrite k (writes ++ writes') = (lastWrite k writes').or (lastWrite k writes) := by
  induction writes with
  | nil => simp [lastWrite]
  | cons w writes ih => rw [List.cons_append, lastWrite, ih, lastWrite, Option.or_assoc]

theorem applyWrites_apply (fields : κ → β) (writes : List (κ × β)) (k : κ) :
    applyWrites fields writes k = (lastWrite k writes).getD (fields k) := by
  induction writes generalizing fields with
  | nil => rfl
  | cons w writes ih =>
    show applyWrites (Function.update fields w.1 w.2) writes k = _
    rw [ih, lastWrite]
    cases lastWrite k writes with
    | some x => rfl
    | none =>
      by_cases hk : w.1 = k
      · subst hk
        simp
      · simp [hk, Function.update_of_ne (Ne.symm hk)]

/-- The field looks the same with the earlier writes and without them if and only if it is
written again, or its last earlier value looks like the one before. -/
theorem observed_eq_iff (look : β → γ) (fields : κ → β) (earlier own : List (κ × β)) (k : κ) :
    look (applyWrites (applyWrites fields earlier) own k) = look (applyWrites fields own k) ↔
      (lastWrite k own = none → ∀ x, lastWrite k earlier = some x → look x = look (fields k)) := by
  rw [applyWrites_apply, applyWrites_apply, applyWrites_apply]
  cases lastWrite k own with
  | some x => simp
  | none =>
    cases lastWrite k earlier with
    | none => simp
    | some x => simp

end TfAnalytics.Lib
