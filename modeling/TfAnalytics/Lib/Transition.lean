/-!
# Transition systems

A system is an initial state and a guarded step function: `step s a` is `none`
when the action `a` cannot happen in `s`. A run is any sequence of enabled
actions, so what holds of every reachable state holds for every interleaving.

* `Reachable.invariant`: the induction rule;
* `Reachable.invariant_under`: the same for an invariant that needs a condition
  which, once lost, stays lost;
* `ReachableVia.invariant`: the same for runs whose steps all meet a condition;
* `run_invariant`: the same for what relates the state to the actions of the run.
-/

namespace TfAnalytics.Lib

/-- An initial state and what each action does. -/
structure System (σ α : Type) where
  init : σ
  step : σ → α → Option σ

namespace System

variable {σ α : Type} (sys : System σ α)

/-- The state after a sequence of actions, if each was enabled in its turn. -/
def run (actions : List α) : Option σ := actions.foldlM sys.step sys.init

/-- The states some run ends in. -/
inductive Reachable : σ → Prop where
  | init : Reachable sys.init
  | step {s s' : σ} {a : α} (h : Reachable s) (hstep : sys.step s a = some s') : Reachable s'

variable {sys}

theorem Reachable.invariant {P : σ → Prop} (hinit : P sys.init)
    (hstep : ∀ s a s', P s → sys.step s a = some s' → P s') {s : σ} (h : sys.Reachable s) :
    P s := by
  induction h with
  | init => exact hinit
  | step _ hs ih => exact hstep _ _ _ ih hs

/-- The condition `C` can only be lost along a run, so a state in which it
holds was reached through states in which it held. -/
theorem Reachable.invariant_under {C P : σ → Prop}
    (hback : ∀ s a s', sys.step s a = some s' → C s' → C s) (hinit : P sys.init)
    (hstep : ∀ s a s', P s → C s' → sys.step s a = some s' → P s') {s : σ}
    (h : sys.Reachable s) (hC : C s) : P s := by
  induction h with
  | init => exact hinit
  | step _ hs ih => exact hstep _ _ _ (ih (hback _ _ _ hs hC)) hC hs

theorem reachable_of_foldlM {s s' : σ} (h : sys.Reachable s) {actions : List α}
    (hrun : actions.foldlM sys.step s = some s') : sys.Reachable s' := by
  induction actions generalizing s with
  | nil =>
    injection hrun with hrun
    exact hrun ▸ h
  | cons a actions ih =>
    rw [List.foldlM_cons] at hrun
    cases hs : sys.step s a with
    | none =>
      rw [hs] at hrun
      cases hrun
    | some s₁ =>
      rw [hs] at hrun
      exact ih (h.step hs) hrun

/-- Where a concrete run ends is reachable. -/
theorem reachable_of_run {actions : List α} {s : σ} (h : sys.run actions = some s) :
    sys.Reachable s :=
  reachable_of_foldlM .init h

theorem run_append (actions : List α) (a : α) :
    sys.run (actions ++ [a]) = (sys.run actions).bind fun s => sys.step s a := by
  simp [run, List.foldlM_append]

/-- The induction rule for what relates a state to the run that ends in it. -/
theorem run_invariant {P : List α → σ → Prop} (hinit : P [] sys.init)
    (hstep : ∀ actions s a s', P actions s → sys.step s a = some s' → P (actions ++ [a]) s')
    {actions : List α} {s : σ} (h : sys.run actions = some s) : P actions s := by
  have hfrom : ∀ (actions before : List α) (s₀ : σ), P before s₀ →
      actions.foldlM sys.step s₀ = some s → P (before ++ actions) s := by
    intro actions
    induction actions with
    | nil =>
      intro before s₀ hbefore hrun
      injection hrun with hrun
      rw [List.append_nil]
      exact hrun ▸ hbefore
    | cons a actions ih =>
      intro before s₀ hbefore hrun
      rw [List.foldlM_cons] at hrun
      obtain ⟨s₁, hs, hrun⟩ := Option.bind_eq_some_iff.mp hrun
      rw [List.append_cons]
      exact ih (before ++ [a]) s₁ (hstep before s₀ a s₁ hbefore hs) hrun
  exact hfrom actions [] sys.init hinit h

/-- The states that runs end in all of whose steps meet `ok`. -/
inductive ReachableVia (sys : System σ α) (ok : σ → α → Prop) : σ → Prop where
  | init : ReachableVia sys ok sys.init
  | step {s s' : σ} {a : α} (h : ReachableVia sys ok s) (hok : ok s a)
      (hstep : sys.step s a = some s') : ReachableVia sys ok s'

theorem ReachableVia.invariant {ok : σ → α → Prop} {P : σ → Prop} (hinit : P sys.init)
    (hstep : ∀ s a s', P s → ok s a → sys.step s a = some s' → P s') {s : σ}
    (h : sys.ReachableVia ok s) : P s := by
  induction h with
  | init => exact hinit
  | step _ hok hs ih => exact hstep _ _ _ ih hok hs

/-- Where a concrete run ends whose actions meet the condition whenever enabled. -/
theorem reachableVia_of_run {ok : σ → α → Prop} {actions : List α} {s : σ}
    (h : sys.run actions = some s)
    (hok : ∀ a ∈ actions, ∀ s s', sys.step s a = some s' → ok s a) : sys.ReachableVia ok s := by
  have hfrom : ∀ (actions : List α) (s₀ : σ), sys.ReachableVia ok s₀ →
      actions.foldlM sys.step s₀ = some s →
      (∀ a ∈ actions, ∀ s s', sys.step s a = some s' → ok s a) → sys.ReachableVia ok s := by
    intro actions
    induction actions with
    | nil =>
      intro s₀ hreach hrun _
      injection hrun with hrun
      exact hrun ▸ hreach
    | cons a actions ih =>
      intro s₀ hreach hrun hok
      rw [List.foldlM_cons] at hrun
      obtain ⟨s₁, hstep, hrun⟩ := Option.bind_eq_some_iff.mp hrun
      exact ih s₁ (hreach.step (hok a List.mem_cons_self _ _ hstep) hstep) hrun
        fun b hb => hok b (List.mem_cons_of_mem a hb)
  exact hfrom actions sys.init .init h hok

end System

end TfAnalytics.Lib
