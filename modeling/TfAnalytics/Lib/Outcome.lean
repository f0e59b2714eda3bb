import Mathlib.Data.List.Basic

/-!
# Outcomes

A computation that can fail in several places fails with the first of its errors. `outcome es v`
is the computation that has the errors `es`, in the order in which they come up, and the value
`v` if there is none. Sequences and loops of such computations are of this kind again.

* `outcome_bind`, `mapM_outcome`, `foldlM_outcome`: which errors they have;
* `mem_of_mapM_ok`: where the values of a loop come from.
-/

namespace TfAnalytics.Lib

variable {ε α β σ : Type}

/-- The first error, or the value. -/
def outcome (errors : List ε) (v : β) : Except ε β :=
  match errors.head? with
  | some e => .error e
  | none => .ok v

@[simp] theorem outcome_nil (v : β) : outcome ([] : List ε) v = .ok v := rfl

@[simp] theorem outcome_cons (e : ε) (es : List ε) (v : β) : outcome (e :: es) v = .error e := rfl

/-- What comes next is not tried after an error, so only its value has to be known there. -/
theorem outcome_bind {es es' : List ε} {v : α} {v' : β} {f : α → Except ε β}
    (h : es = [] → f v = outcome es' v') : (outcome es v >>= f) = outcome (es ++ es') v' := by
  cases es with
  | nil => exact h rfl
  | cons e es => rfl

theorem outcome_bind_ok {es : List ε} {v : α} {v' : β} {f : α → Except ε β}
    (h : es = [] → f v = .ok v') : (outcome es v >>= f) = outcome es v' := by
  cases es with
  | nil => exact h rfl
  | cons e es => rfl

theorem outcome_bind_pure (es : List ε) (v : α) (f : α → β) :
    (outcome es v >>= fun a => pure (f a)) = outcome es (f v) :=
  outcome_bind_ok fun _ => rfl

theorem mapM_outcome {f : α → Except ε β} {errors : α → List ε} {g : α → β} {l : List α}
    (h : ∀ a ∈ l, f a = outcome (errors a) (g a)) :
    l.mapM f = outcome (l.flatMap errors) (l.map g) := by
  induction l with
  | nil => rfl
  | cons a l ih =>
    obtain ⟨ha, hl⟩ := List.forall_mem_cons.mp h
    rw [List.mapM_cons, ih hl, ha, List.flatMap_cons, List.map_cons]
    exact outcome_bind fun _ => outcome_bind_pure _ _ _

theorem foldlM_outcome {f : σ → α → Except ε σ} {errors : α → List ε} {g : σ → α → σ} {l : List α}
    (h : ∀ s, ∀ a ∈ l, f s a = outcome (errors a) (g s a)) (s : σ) :
    l.foldlM f s = outcome (l.flatMap errors) (l.foldl g s) := by
  induction l generalizing s with
  | nil => rfl
  | cons a l ih =>
    rw [List.foldlM_cons, h s a List.mem_cons_self, List.flatMap_cons, List.foldl_cons]
    exact outcome_bind fun _ => ih (fun s a ha => h s a (List.mem_cons_of_mem _ ha)) (g s a)

/-- What a loop returns came from its turns. -/
theorem mem_of_mapM_ok {f : α → Except ε β} {l : List α} {bs : List β} (h : l.mapM f = .ok bs) :
    ∀ b ∈ bs, ∃ a ∈ l, f a = .ok b := by
  induction l generalizing bs with
  | nil =>
    obtain rfl := Except.ok.inj h
    intro b hb
    cases hb
  | cons a l ih =>
    rw [List.mapM_cons] at h
    cases ha : f a with
    | error e =>
      rw [ha] at h
      cases h
    | ok b =>
      cases hl : l.mapM f with
      | error e =>
        rw [ha, hl] at h
        cases h
      | ok rest =>
        rw [ha, hl] at h
        obtain rfl := Except.ok.inj h
        intro b' hb'
        rcases List.mem_cons.mp hb' with rfl | hb'
        · exact ⟨a, List.mem_cons_self, ha⟩
        · obtain ⟨a', ha', hf⟩ := ih hl b' hb'
          exact ⟨a', List.mem_cons_of_mem a ha', hf⟩

theorem bind_congr_ok {x : Except ε α} {f g : α → Except ε β} (h : ∀ a, x = .ok a → f a = g a) :
    (x >>= f) = (x >>= g) := by
  cases x with
  | error e => rfl
  | ok a => exact h a rfl

end TfAnalytics.Lib
