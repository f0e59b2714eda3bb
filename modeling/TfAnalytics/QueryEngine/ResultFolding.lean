import TfAnalytics.QueryEngine.StatsSelect
import Mathlib.Data.List.Basic

/-!
# Query engine — from chunk outputs to the result

`QueryExec` folds the output of each chunk into the result of its instance, and
`QueryMerge` merges the results of the instances. There are two kinds of
results, vectors of rows (`BufferT`) and multimaps (`OutRowMultimapT`), and each
may need a merge or not.

A `Folding` is one of these four ways. Folding a chunk in never removes rows,
and adds no more than the chunk has; the row counters of the pipeline rest on
that.

`parsed` says whether the `AnalyticsQuery` that is built anew for a merge has
no errors.
-/

namespace TfAnalytics.QueryEngine

open TfAnalytics.Lib

/-- How outputs are folded: `fold` into an instance's result, `merge` at the
end. Both give a `ret_code`; `none` is an abort. -/
structure Folding (ρ : Type) where
  empty : ρ
  size : ρ → Nat
  fold : (parsed : Bool) → (result output : ρ) → Option (Bool × ρ)
  merge : (parsed : Bool) → (results : List ρ) → Option (Bool × ρ)
  size_empty : size empty = 0
  size_fold : ∀ {parsed result output rc result'},
    fold parsed result output = some (rc, result') →
      size result ≤ size result' ∧ size result' ≤ size result + size output
  fold_parsed : ∀ {parsed result output result'},
    fold parsed result output = some (true, result') → fold true result output = some (true, result')

/-- The result of an instance whose chunks had these outputs, each folded in
without error. -/
def Folding.foldAll {ρ : Type} (F : Folding ρ) (outputs : List ρ) : Option ρ :=
  outputs.foldlM
    (fun result output =>
      match F.fold true result output with
      | some (true, result') => some result'
      | _ => none)
    F.empty

theorem Folding.foldAll_snoc {ρ : Type} {F : Folding ρ} {outputs : List ρ} {result result' c : ρ}
    (h : F.foldAll outputs = some result) (hfold : F.fold true result c = some (true, result')) :
    F.foldAll (outputs ++ [c]) = some result' := by
  unfold foldAll at *
  rw [List.foldlM_append, h]
  simp [hfold]

-- ---------------------------------------------------------------------------
-- Vectors of rows
-- ---------------------------------------------------------------------------

/-- What `PostProcessingQuery` knows of a query. `sort` is `std::sort` with the
comparator: some order, of the same rows. -/
structure PostProcessing (ω : Type) where
  sorted : Bool
  ascending : Bool
  limit : Nat
  sort_field_comparator : ω → ω → Bool
  sort : List ω → List ω
  sort_perm : ∀ l, (sort l).Perm l

namespace PostProcessing

variable {ω : Type} (p : PostProcessing ω)

/-- `std::inplace_merge` of two adjacent ranges. -/
def inplaceMerge (first second : List ω) : List ω :=
  List.merge first second fun a b => !p.sort_field_comparator b a

/-- `QueryAccumulate`, that is `merge_processing` on a new query. -/
def merge_processing (parsed : Bool) (output input : List ω) : Bool × List ω :=
  if parsed = false then (false, output)
  else if p.sorted = true ∧ output.length ≠ 0 then
    if p.ascending then (true, p.inplaceMerge output input)
    else (true, (p.inplaceMerge input.reverse output.reverse).reverse)
  else (true, output ++ input)

/-- `QueryFinalMerge` on vectors. -/
def final_merge_processing (parsed : Bool) (inputs : List (List ω)) : Bool × List ω :=
  if parsed = false then (false, [])
  else
    let merged := inputs.flatten
    let ordered :=
      if p.sorted then if p.ascending then p.sort merged else (p.sort merged.reverse).reverse
      else merged
    (true, if p.limit ≠ 0 then ordered.take p.limit else ordered)

theorem length_merge_processing (parsed : Bool) (output input : List ω) :
    output.length ≤ (p.merge_processing parsed output input).2.length ∧
      (p.merge_processing parsed output input).2.length ≤ output.length + input.length := by
  unfold merge_processing inplaceMerge
  split
  · exact ⟨le_refl _, Nat.le_add_right ..⟩
  · split
    · split
      · rw [List.length_merge]
        omega
      · rw [List.length_reverse, List.length_merge, List.length_reverse, List.length_reverse]
        omega
    · rw [List.length_append]
      omega

end PostProcessing

/-- Without a merge a chunk goes in front of what is there. -/
def bufferFolding {ω : Type} (p : PostProcessing ω) (need_merge : Bool) : Folding (List ω) where
  empty := []
  size := List.length
  fold parsed result output :=
    if need_merge then some (p.merge_processing parsed result output) else some (true, output ++ result)
  merge parsed results :=
    if need_merge then some (p.final_merge_processing parsed results)
    else some (true, results.foldl (fun res sub => sub ++ res) [])
  size_empty := rfl
  size_fold := by
    intro parsed result output rc result' h
    split at h
    · have hlen := p.length_merge_processing parsed result output
      rw [Option.some.inj h] at hlen
      exact hlen
    · injection h with h
      rw [← (Prod.mk.inj h).2, List.length_append]
      omega
  fold_parsed := by
    intro parsed result output result' h
    cases need_merge with
    | false => exact h
    | true =>
      cases parsed with
      | true => exact h
      | false => cases Option.some.inj h

-- ---------------------------------------------------------------------------
-- Multimaps
-- ---------------------------------------------------------------------------

namespace StatsSelect

variable {δ : Type} [LinearOrder δ] [Numerics δ]

/-- Insertion of a whole multimap. The hint starts at `begin()` and then is the
entry inserted last, so each entry goes in front of its equals. -/
def insertAll (input output : MapBuf δ) : MapBuf δ :=
  input.entries.foldl (fun out e => out.insertLower e.1 e.2) output

omit [Numerics δ] in
theorem size_insertAll (input output : MapBuf δ) :
    (insertAll input output).size = output.size + input.size := by
  unfold insertAll Multimap.size
  generalize input.entries = es
  induction es generalizing output with
  | nil => rfl
  | cons e es ih =>
    have hone := output.size_insertLower e.1 e.2
    unfold Multimap.size at hone
    rw [List.foldl_cons, ih, hone, List.length_cons]
    omega

theorem mergeEntries_size {hash_range : StatMap δ → Fin (2 ^ 64)} {field : String}
    {es : List (SortKey δ × (StatMap δ × AggRow δ))} {out out' : MapBuf δ}
    (h : mergeEntries hash_range field es out = some out') :
    out.size ≤ out'.size ∧ out'.size ≤ out.size + es.length := by
  unfold mergeEntries at h
  induction es generalizing out with
  | nil =>
    injection h with h
    subst h
    exact ⟨le_refl _, le_refl _⟩
  | cons e es ih =>
    rw [List.foldlM_cons] at h
    obtain ⟨out₁, hout₁, h⟩ := Option.bind_eq_some_iff.mp h
    have hone := Multimap.mergeEntry_size hout₁
    have hrest := ih h
    rw [List.length_cons]
    omega

/-- Stats, session and flow queries. `QueryFinalMerge` builds the query anew
and goes on without looking at its errors. -/
def mapFolding (hash_range : StatMap δ → Fin (2 ^ 64)) (S : StatsSelect) (limit : Nat)
    (need_merge : Bool) : Folding (MapBuf δ) where
  empty := .empty
  size := Multimap.size
  fold _ result output :=
    if need_merge then (Merge hash_range "" output result).map fun m => (true, m)
    else some (true, insertAll output result)
  merge parsed results :=
    if need_merge then
      if parsed then (MergeFinal hash_range S results).map fun m => (true, applyLimit limit m)
      else none
    else some (true, results.foldl (fun res sub => insertAll sub res) .empty)
  size_empty := rfl
  size_fold := by
    intro parsed result output rc result' h
    split at h
    · obtain ⟨m, hm, heq⟩ := Option.map_eq_some_iff.mp h
      rw [← (Prod.mk.inj heq).2]
      exact mergeEntries_size hm
    · injection h with h
      rw [← (Prod.mk.inj h).2, size_insertAll]
      omega
  fold_parsed h := h

end StatsSelect

end TfAnalytics.QueryEngine
