import Mathlib.Data.List.Basic

/-!
# Nested calls

A walk over a forest opens a node before its children and closes it after them. The brackets
of a walk are the sequences in which every closing one has its opening one (`exists_forest`);
a machine that keeps no more than the path to the node it is at answers every closing bracket
from the path alone (`walk_brackets`).
-/

namespace TfAnalytics.Lib

/-- Nodes with their children, in order. -/
inductive Forest (α : Type) where
  | nil
  | node (a : α) (children siblings : Forest α)

inductive Bracket (α : Type) where
  | opening (a : α)
  | closing

variable {α σ ε : Type}

/-- The brackets of a walk. -/
def Forest.brackets : Forest α → List (Bracket α)
  | .nil => []
  | .node a children siblings =>
    .opening a :: children.brackets ++ .closing :: siblings.brackets

/-- The paths to the nodes, behind `path`: a node comes after its descendants. -/
def Forest.paths (path : List α) : Forest α → List (List α)
  | .nil => []
  | .node a children siblings =>
    children.paths (path ++ [a]) ++ (path ++ [a]) :: siblings.paths path

/-- Every closing bracket has its opening one; `depth` of them are open at the beginning. -/
def WellNested (depth : Nat) : List (Bracket α) → Prop
  | [] => depth = 0
  | .opening _ :: rest => WellNested (depth + 1) rest
  | .closing :: rest => 0 < depth ∧ WellNested (depth - 1) rest

/-- Some property of all nodes. -/
def Forest.All (P : α → Prop) : Forest α → Prop
  | .nil => True
  | .node a children siblings => P a ∧ children.All P ∧ siblings.All P

/-- With brackets open, a sequence is a forest, a closing bracket and what is left. -/
theorem exists_forest_closing (brackets : List (Bracket α)) :
    ∀ depth, WellNested depth brackets →
      ∃ (f : Forest α) (rest : List (Bracket α)), brackets = f.brackets ++ rest ∧
        WellNested depth rest ∧ rest.length ≤ brackets.length ∧
        (rest = [] ∨ ∃ rest', rest = .closing :: rest') := by
  induction brackets using WellFounded.induction (measure List.length).wf with
  | _ brackets ih =>
    intro depth h
    match brackets, h with
    | [], h => exact ⟨.nil, [], rfl, h, Nat.le_refl _, .inl rfl⟩
    | .closing :: rest, h =>
      exact ⟨.nil, .closing :: rest, rfl, h, Nat.le_refl _, .inr ⟨rest, rfl⟩⟩
    | .opening a :: inner, h =>
      obtain ⟨children, rest, hinner, hrest, hlen, hclose⟩ :=
        ih inner (Nat.lt_succ_self _) (depth + 1) h
      rcases hclose with rfl | ⟨rest', rfl⟩
      · nomatch hrest
      · have hshort : rest'.length < (Bracket.opening a :: inner).length := by
          simp only [List.length_cons] at hlen ⊢
          omega
        obtain ⟨siblings, last, hrest', hlast, hlen', hend⟩ := ih rest' hshort depth hrest.2
        refine ⟨.node a children siblings, last, ?_, hlast, ?_, hend⟩
        · rw [Forest.brackets, hinner, hrest']
          simp
        · exact Nat.le_trans hlen' (Nat.le_of_lt hshort)

theorem exists_forest {brackets : List (Bracket α)} (h : WellNested 0 brackets) :
    ∃ f : Forest α, f.brackets = brackets := by
  obtain ⟨f, rest, hbrackets, hrest, -, rfl | ⟨rest', rfl⟩⟩ := exists_forest_closing brackets 0 h
  · exact ⟨f, by rw [hbrackets, List.append_nil]⟩
  · exact absurd hrest.1 (Nat.lt_irrefl 0)

theorem Forest.all_of_brackets {P : α → Prop} {f : Forest α}
    (h : ∀ a, .opening a ∈ f.brackets → P a) : f.All P := by
  induction f with
  | nil => trivial
  | node a children siblings ihc ihs =>
    refine ⟨h a List.mem_cons_self, ihc fun b hb => h b ?_, ihs fun b hb => h b ?_⟩
    · exact List.mem_cons_of_mem _ (List.mem_append_left _ hb)
    · exact List.mem_cons_of_mem _ (List.mem_append_right _ (List.mem_cons_of_mem _ hb))

/-- Brackets taken by a machine; a closing one is answered. -/
def walk (push : σ → α → Option σ) (pop : σ → Option (σ × ε)) :
    σ → List (Bracket α) → Option (σ × List ε)
  | s, [] => some (s, [])
  | s, .opening a :: rest =>
    match push s a with
    | none => none
    | some s' => walk push pop s' rest
  | s, .closing :: rest =>
    match pop s with
    | none => none
    | some (s', answer) =>
      match walk push pop s' rest with
      | none => none
      | some (last, answers) => some (last, answer :: answers)

/-- A machine whose state is given by the path answers for every path of the forest. -/
theorem walk_brackets {push : σ → α → Option σ} {pop : σ → Option (σ × ε)} {P : α → Prop}
    {state : List α → σ} {answer : List α → ε}
    (hpush : ∀ path a, P a → push (state path) a = some (state (path ++ [a])))
    (hpop : ∀ path a, pop (state (path ++ [a])) = some (state path, answer (path ++ [a])))
    {f : Forest α} (hf : f.All P) (path : List α) (rest : List (Bracket α)) :
    walk push pop (state path) (f.brackets ++ rest) =
      (walk push pop (state path) rest).map fun last =>
        (last.1, (f.paths path).map answer ++ last.2) := by
  induction f generalizing path rest with
  | nil => simp [Forest.brackets, Forest.paths]
  | node a children siblings ihc ihs =>
    obtain ⟨ha, hchildren, hsiblings⟩ := hf
    have hsplit : (Forest.node a children siblings).brackets ++ rest =
        .opening a :: (children.brackets ++ .closing :: (siblings.brackets ++ rest)) := by
      simp [Forest.brackets]
    rw [hsplit, walk, hpush path a ha]
    show walk push pop (state (path ++ [a])) _ = _
    rw [ihc hchildren, walk, hpop]
    show Option.map _ (match walk push pop (state path) (siblings.brackets ++ rest) with
      | none => none
      | some (last, answers) => some (last, answer (path ++ [a]) :: answers)) = _
    rw [ihs hsiblings]
    cases walk push pop (state path) rest with
    | none => rfl
    | some last => simp [Forest.paths]

/-- The brackets tell the paths: the machine that keeps the path answers with them. -/
theorem paths_eq_of_brackets {f g : Forest α} (h : f.brackets = g.brackets) :
    f.paths [] = g.paths [] := by
  have hwalk : ∀ f : Forest α, walk (fun path a => some (path ++ [a]))
      (fun path : List α => if path = [] then none else some (path.dropLast, path)) [] f.brackets =
        some ([], f.paths []) := by
    intro f
    have hrun := @walk_brackets α (List α) (List α) (fun path a => some (path ++ [a]))
      (fun path => if path = [] then none else some (path.dropLast, path)) (fun _ => True) id id
      (fun _ _ _ => rfl) (fun path a => by simp) f (Forest.all_of_brackets fun _ _ => trivial) [] []
    rw [List.append_nil] at hrun
    exact hrun.trans (by simp [walk])
  have hpaths := (hwalk f).symm.trans (h ▸ hwalk g)
  exact (Prod.mk.inj (Option.some.inj hpaths)).2

end TfAnalytics.Lib
