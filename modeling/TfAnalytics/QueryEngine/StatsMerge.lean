import TfAnalytics.Lib.Grouped
import TfAnalytics.QueryEngine.StatsSelect
import Mathlib

/-!
# Query engine — totals of stats groups

The merge routines of `stats_select.cc` over the library of group totals. A
row contributes its group and its aggregates; an entry of a multimap is a total
of contributions when its SUM and COUNT are their sums and its MAX and MIN
their extrema (`AggregateOf`). `MergeAggRow` takes totals to totals
(`aggregateOf_isTotal`), provided the rows of a group carry the same aggregated
columns: it keeps the columns of the row it has and looks the others up in the
new one.

Main results:

* `loadChunk_represents`, `merge_represents`, `mergeInputs_represents`: what a
  multimap holds after any sequence of `LoadRow` and `Merge` calls;
* `rekeyEntries_perm`: `MergeFinal`'s second loop only moves entries.
-/

namespace TfAnalytics.QueryEngine

open TfAnalytics.Lib

-- ---------------------------------------------------------------------------
-- Totals of one aggregate
-- ---------------------------------------------------------------------------

/-- The operators on whose values the results speak. -/
def AggOper.exact : AggOper → Bool
  | .SUM | .COUNT | .MAX | .MIN | .COUNT_DISTINCT => true
  | .INVALID | .CLASS | .PERCENTILES | .AVG => false

namespace StatsSelect

/-- The type of value an aggregate holds. -/
def WellTyped {δ : Type} (op : AggOper) (v : StatVal δ) : Prop :=
  match op with
  | .SUM | .COUNT | .MAX | .MIN | .COUNT_DISTINCT => ∃ n, v = .uint64 n
  | .AVG => ∃ log, v = .centroid log
  | .PERCENTILES => ∃ log, v = .tdigest log
  | .INVALID | .CLASS => True

/-- `n` is the total of `vals` under `op`; sums are modulo `2^64`. -/
def TotalOf (op : AggOper) (n : Fin (2 ^ 64)) (vals : List (Fin (2 ^ 64))) : Prop :=
  match op with
  | .MAX => n ∈ vals ∧ ∀ x ∈ vals, x ≤ n
  | .MIN => n ∈ vals ∧ ∀ x ∈ vals, n ≤ x
  | _ => n = vals.sum

def combine (op : AggOper) (a b : Fin (2 ^ 64)) : Fin (2 ^ 64) :=
  match op with
  | .MAX => pickMax a b
  | .MIN => pickMin a b
  | _ => a + b

theorem TotalOf.perm {op : AggOper} {n : Fin (2 ^ 64)} {vals vals' : List (Fin (2 ^ 64))}
    (h : TotalOf op n vals) (hp : vals.Perm vals') : TotalOf op n vals' := by
  unfold TotalOf at *
  split at h
  · exact ⟨hp.mem_iff.mp h.1, fun x hx => h.2 x (hp.mem_iff.mpr hx)⟩
  · exact ⟨hp.mem_iff.mp h.1, fun x hx => h.2 x (hp.mem_iff.mpr hx)⟩
  · rw [h, hp.sum_eq]

theorem TotalOf.unique {op : AggOper} {n n' : Fin (2 ^ 64)} {vals : List (Fin (2 ^ 64))}
    (h : TotalOf op n vals) (h' : TotalOf op n' vals) : n = n' := by
  cases op with
  | MAX => exact le_antisymm (h'.2 n h.1) (h.2 n' h'.1)
  | MIN => exact le_antisymm (h.2 n' h'.1) (h'.2 n h.1)
  | _ => exact Eq.trans h (Eq.symm h')

theorem totalOf_singleton (op : AggOper) (n : Fin (2 ^ 64)) : TotalOf op n [n] := by
  unfold TotalOf
  split
  · exact ⟨List.mem_singleton_self n, fun x hx => le_of_eq (List.mem_singleton.mp hx)⟩
  · exact ⟨List.mem_singleton_self n, fun x hx => le_of_eq (List.mem_singleton.mp hx).symm⟩
  · rw [List.sum_singleton]

theorem TotalOf.combine {op : AggOper} {a b : Fin (2 ^ 64)} {as bs : List (Fin (2 ^ 64))}
    (ha : TotalOf op a as) (hb : TotalOf op b bs) :
    TotalOf op (combine op a b) (as ++ bs) := by
  unfold TotalOf StatsSelect.combine at *
  cases op with
  | MAX =>
    show pickMax a b ∈ as ++ bs ∧ _
    unfold pickMax
    split
    · rename_i hlt
      refine ⟨List.mem_append_left _ ha.1, fun x hx => ?_⟩
      rcases List.mem_append.mp hx with hx | hx
      · exact ha.2 x hx
      · exact le_of_lt (lt_of_le_of_lt (hb.2 x hx) hlt)
    · rename_i hlt
      refine ⟨List.mem_append_right _ hb.1, fun x hx => ?_⟩
      rcases List.mem_append.mp hx with hx | hx
      · exact le_trans (ha.2 x hx) (not_lt.mp hlt)
      · exact hb.2 x hx
  | MIN =>
    show pickMin a b ∈ as ++ bs ∧ _
    unfold pickMin
    split
    · rename_i hlt
      refine ⟨List.mem_append_left _ ha.1, fun x hx => ?_⟩
      rcases List.mem_append.mp hx with hx | hx
      · exact ha.2 x hx
      · exact le_of_lt (lt_of_lt_of_le hlt (hb.2 x hx))
    · rename_i hlt
      refine ⟨List.mem_append_right _ hb.1, fun x hx => ?_⟩
      rcases List.mem_append.mp hx with hx | hx
      · exact le_trans (not_lt.mp hlt) (ha.2 x hx)
      · exact hb.2 x hx
  | _ =>
    simp only at ha hb ⊢
    rw [List.sum_append, ← ha, ← hb]

/-- A total of totals is a total of everything they are totals of. -/
theorem TotalOf.flatMap {op : AggOper} {n : Fin (2 ^ 64)}
    {shares : List (Option (Fin (2 ^ 64)) × List (Fin (2 ^ 64)))}
    (h : TotalOf op n (shares.filterMap Prod.fst))
    (hshares : ∀ x ∈ shares,
      (∃ m, x.1 = some m ∧ TotalOf op m x.2) ∨ (x.1 = none ∧ x.2 = [])) :
    TotalOf op n (shares.flatMap Prod.snd) := by
  have hmem : ∀ m ∈ shares.filterMap Prod.fst, ∃ x ∈ shares, TotalOf op m x.2 := by
    intro m hm
    obtain ⟨x, hx, hxm⟩ := List.mem_filterMap.mp hm
    rcases hshares x hx with ⟨m', hm', htot⟩ | ⟨hnone, -⟩
    · rw [hxm] at hm'
      exact ⟨x, hx, Option.some.inj hm' ▸ htot⟩
    · rw [hxm] at hnone
      cases hnone
  have hback : ∀ y ∈ shares.flatMap Prod.snd, ∃ m ∈ shares.filterMap Prod.fst, ∃ x ∈ shares,
      y ∈ x.2 ∧ TotalOf op m x.2 := by
    intro y hy
    obtain ⟨x, hx, hyx⟩ := List.mem_flatMap.mp hy
    rcases hshares x hx with ⟨m, hm, htot⟩ | ⟨-, hnil⟩
    · exact ⟨m, List.mem_filterMap.mpr ⟨x, hx, hm⟩, x, hx, hyx, htot⟩
    · rw [hnil] at hyx
      cases hyx
  cases op with
  | MAX =>
    obtain ⟨x, hx, htot⟩ := hmem n h.1
    refine ⟨List.mem_flatMap.mpr ⟨x, hx, htot.1⟩, fun y hy => ?_⟩
    obtain ⟨m, hm, x, -, hyx, htot⟩ := hback y hy
    exact le_trans (htot.2 y hyx) (h.2 m hm)
  | MIN =>
    obtain ⟨x, hx, htot⟩ := hmem n h.1
    refine ⟨List.mem_flatMap.mpr ⟨x, hx, htot.1⟩, fun y hy => ?_⟩
    obtain ⟨m, hm, x, -, hyx, htot⟩ := hback y hy
    exact le_trans (h.2 m hm) (htot.2 y hyx)
  | _ =>
    refine Eq.trans h ?_
    clear h hmem hback
    induction shares with
    | nil => rfl
    | cons x shares ih =>
      have hrest := ih fun y hy => hshares y (List.mem_cons_of_mem _ hy)
      rw [List.flatMap_cons, List.sum_append, ← hrest]
      rcases hshares x List.mem_cons_self with ⟨m, hm, htot⟩ | ⟨hnone, hnil⟩
      · have hsum : m = x.2.sum := htot
        rw [List.filterMap_cons_some hm, List.sum_cons, hsum]
      · rw [List.filterMap_cons_none hnone, hnil, List.sum_nil, zero_add]

variable {δ : Type}

theorem WellTyped.exists_uint64 {op : AggOper} {v : StatVal δ} (hop : op.exact = true)
    (h : WellTyped op v) : ∃ n, v = .uint64 n := by
  cases op with
  | SUM | COUNT | MAX | MIN | COUNT_DISTINCT => exact h
  | INVALID | CLASS | PERCENTILES | AVG => cases hop

-- ---------------------------------------------------------------------------
-- Totals of a group
-- ---------------------------------------------------------------------------

/-- Every aggregate holds a value of its type. -/
def TypedRow (a : AggRow δ) : Prop := ∀ k v, a.find? k = some v → WellTyped k.oper v

/-- Well-typed aggregates that, unless there are none at all, have exactly the
keys `K` among the `tracked` ones. -/
structure RowTyped (tracked K : AggKey → Prop) (a : AggRow δ) : Prop where
  typed : TypedRow a
  keys : a.isEmpty = false → ∀ k, tracked k → ((a.find? k).isSome = true ↔ K k)

def asUInt64 : StatVal δ → Option (Fin (2 ^ 64))
  | .uint64 n => some n
  | _ => none

/-- The values contributed under key `k`. -/
def valuesAt (k : AggKey) (cs : List (StatMap δ × AggRow δ)) : List (Fin (2 ^ 64)) :=
  cs.filterMap fun c => (c.2.find? k).bind asUInt64

/-- The entry `b` is a total of the contributions `cs`. -/
structure AggregateOf (tracked : AggKey → Prop) (K : StatMap δ → AggKey → Prop)
    (cs : List (StatMap δ × AggRow δ)) (b : StatMap δ × AggRow δ) : Prop where
  ne_nil : cs ≠ []
  group_eq : ∀ c ∈ cs, c.1 = b.1
  row : RowTyped tracked (K b.1) b.2
  isEmpty : b.2.isEmpty = true ↔ ∀ c ∈ cs, c.2.isEmpty = true
  total : ∀ k n, tracked k → k.oper.exact = true → b.2.find? k = some (.uint64 n) →
    TotalOf k.oper n (valuesAt k cs)

theorem valuesAt_append (k : AggKey) (cs cs' : List (StatMap δ × AggRow δ)) :
    valuesAt k (cs ++ cs') = valuesAt k cs ++ valuesAt k cs' :=
  List.filterMap_append ..

theorem valuesAt_eq_nil {k : AggKey} {cs : List (StatMap δ × AggRow δ)}
    (h : ∀ c ∈ cs, c.2.isEmpty = true) : valuesAt k cs = [] := by
  refine List.filterMap_eq_nil_iff.mpr ?_
  intro c hc
  rw [OrderedMap.isEmpty_iff.mp (h c hc) k]
  rfl

/-- A single row is a total of itself. -/
theorem aggregateOf_singleton {tracked : AggKey → Prop} {K : StatMap δ → AggKey → Prop}
    {c : StatMap δ × AggRow δ} (h : RowTyped tracked (K c.1) c.2) :
    AggregateOf tracked K [c] c := by
  refine ⟨List.cons_ne_nil _ _, fun d hd => ?_, h, by simp, ?_⟩
  · rw [List.mem_singleton.mp hd]
  · intro k n _ _ hfind
    have hvals : valuesAt k [c] = [n] := by simp [valuesAt, hfind, asUInt64]
    rw [hvals]
    exact totalOf_singleton _ n

-- ---------------------------------------------------------------------------
-- MergeAggRow
-- ---------------------------------------------------------------------------

section

variable [LinearOrder δ] [Numerics δ]

/-- Values of the right types always merge. -/
theorem mergeVal_wellTyped {op : AggOper} {v nv : StatVal δ} (hv : WellTyped op v)
    (hnv : WellTyped op nv) : ∃ v', mergeVal op v nv = some v' ∧ WellTyped op v' := by
  cases op with
  | SUM | COUNT | MAX | MIN | COUNT_DISTINCT =>
    obtain ⟨a, rfl⟩ := hv
    obtain ⟨b, rfl⟩ := hnv
    exact ⟨_, rfl, _, rfl⟩
  | AVG | PERCENTILES =>
    obtain ⟨a, rfl⟩ := hv
    obtain ⟨b, rfl⟩ := hnv
    exact ⟨_, rfl, _, rfl⟩
  | INVALID | CLASS => exact ⟨v, rfl, trivial⟩

theorem mergeVal_exact {op : AggOper} (hop : op.exact = true) (a b : Fin (2 ^ 64)) :
    mergeVal op (.uint64 a : StatVal δ) (.uint64 b) = some (.uint64 (combine op a b)) := by
  cases op with
  | SUM | COUNT | MAX | MIN | COUNT_DISTINCT => rfl
  | INVALID | CLASS | PERCENTILES | AVG => cases hop

/-- Merging a row into an entry that already has aggregates, key by key. The
values may be of any types `W` that merging stays inside. -/
theorem find?_mergeAggRow {W : AggKey → StatVal δ → Prop}
    (hW : ∀ k v nv, W k v → W k nv → ∃ v', mergeVal k.oper v nv = some v' ∧ W k v')
    {a b : AggRow δ} (ha : ∀ k v, a.find? k = some v → W k v)
    (hb : ∀ k v, b.find? k = some v → W k v) (hne : a.isEmpty = false) :
    ∃ r, MergeAggRow a b = some r ∧
      (∀ k, r.find? k = (a.find? k).bind fun sv => match b.find? k with
        | none => some sv
        | some nv => mergeVal k.oper sv nv) ∧
      (∀ k v, r.find? k = some v → W k v) ∧
      ∀ k, (r.find? k).isSome = true ↔ (a.find? k).isSome = true := by
  -- a key of `a` stays, with a value of its type
  have hkeep : ∀ k sv, a.find? k = some sv → ∃ v, (match b.find? k with
      | none => some sv
      | some nv => mergeVal k.oper sv nv) = some v ∧ W k v := by
    intro k sv hk
    cases hbk : b.find? k with
    | none => exact ⟨sv, rfl, ha k sv hk⟩
    | some nv => exact hW k sv nv (ha k sv hk) (hb k nv hbk)
  obtain ⟨r, hr⟩ := OrderedMap.mapM_isSome (m := a)
    (f := fun k sv => match b.find? k with
      | none => some sv
      | some nv => mergeVal k.oper sv nv) (by
    intro k sv hk
    obtain ⟨v, hv, -⟩ := hkeep k sv hk
    exact Option.isSome_iff_exists.mpr ⟨v, hv⟩)
  have hfind := fun k => OrderedMap.find?_mapM hr k
  refine ⟨r, ?_, hfind, ?_, ?_⟩
  · unfold MergeAggRow
    rw [if_neg (by simp [hne])]
    exact hr
  · intro k v hk
    rw [hfind k] at hk
    obtain ⟨sv, hsv, hv⟩ := Option.bind_eq_some_iff.mp hk
    obtain ⟨v', hv', hwt⟩ := hkeep k sv hsv
    rw [hv] at hv'
    rw [Option.some.inj hv']
    exact hwt
  · intro k
    rw [hfind k, Option.isSome_iff_exists, Option.isSome_iff_exists]
    constructor
    · rintro ⟨v, hv⟩
      obtain ⟨sv, hsv, -⟩ := Option.bind_eq_some_iff.mp hv
      exact ⟨sv, hsv⟩
    · rintro ⟨sv, hsv⟩
      obtain ⟨v, hv, -⟩ := hkeep k sv hsv
      exact ⟨v, by rw [hsv]; exact hv⟩

/-- The merged row has the keys of the row that was there, and at each of them
the combination of the two values. -/
theorem mergeAggRow_spec {a b : AggRow δ} (ha : TypedRow a) (hb : TypedRow b)
    (hne : a.isEmpty = false) :
    ∃ r, MergeAggRow a b = some r ∧ TypedRow r ∧
      (∀ k, (r.find? k).isSome = true ↔ (a.find? k).isSome = true) ∧
      ∀ k n, k.oper.exact = true → r.find? k = some (.uint64 n) → ∃ x, a.find? k = some (.uint64 x) ∧
        ((b.find? k = none ∧ n = x) ∨
          ∃ y, b.find? k = some (.uint64 y) ∧ n = combine k.oper x y) := by
  obtain ⟨r, hr, hfind, htyped, hkeys⟩ :=
    find?_mergeAggRow (fun _ _ _ => mergeVal_wellTyped) ha hb hne
  refine ⟨r, hr, htyped, hkeys, ?_⟩
  intro k n hop hk
  rw [hfind k] at hk
  obtain ⟨sv, hsv, hk⟩ := Option.bind_eq_some_iff.mp hk
  obtain ⟨x, rfl⟩ := WellTyped.exists_uint64 hop (ha k sv hsv)
  refine ⟨x, hsv, ?_⟩
  cases hbk : b.find? k with
  | none =>
    simp only [hbk, Option.some.injEq, StatVal.uint64.injEq] at hk
    exact Or.inl ⟨rfl, hk.symm⟩
  | some nv =>
    obtain ⟨y, rfl⟩ := WellTyped.exists_uint64 hop (hb k nv hbk)
    simp only [hbk] at hk
    rw [mergeVal_exact hop] at hk
    simp only [Option.some.injEq, StatVal.uint64.injEq] at hk
    exact Or.inr ⟨y, rfl, hk.symm⟩

omit [LinearOrder δ] [Numerics δ] in
/-- A row with the keys of a non-empty row is not empty. -/
theorem isEmpty_eq_false_of_keys {a r : AggRow δ} (hne : a.isEmpty = false)
    (hkeys : ∀ k, (r.find? k).isSome = true ↔ (a.find? k).isSome = true) : r.isEmpty = false := by
  rw [Bool.eq_false_iff] at hne ⊢
  intro hempty
  refine hne (OrderedMap.isEmpty_iff.mpr fun k => ?_)
  have hk := hkeys k
  rw [OrderedMap.isEmpty_iff.mp hempty k] at hk
  simpa using hk

/-- Contributions to one group, put together. -/
theorem group_eq_append {γ ρ : Type} {cs cs' : List (γ × ρ)} {g g' : γ}
    (h : ∀ c ∈ cs, c.1 = g) (h' : ∀ c ∈ cs', c.1 = g') (hg : g = g') :
    ∀ c ∈ cs ++ cs', c.1 = g := by
  intro c hc
  rcases List.mem_append.mp hc with hc | hc
  · exact h c hc
  · rw [h' c hc, hg]

theorem mergeAggs_total {tracked : AggKey → Prop} {K : StatMap δ → AggKey → Prop}
    {cs cs' : List (StatMap δ × AggRow δ)} {b b' : StatMap δ × AggRow δ}
    (h : AggregateOf tracked K cs b) (h' : AggregateOf tracked K cs' b') (hg : b.1 = b'.1) :
    ∃ b'', mergeAggs b b' = some b'' ∧ AggregateOf tracked K (cs ++ cs') b'' := by
  have hgroup := group_eq_append h.group_eq h'.group_eq hg
  have hnil : cs ++ cs' ≠ [] := fun hnil => h.ne_nil (List.append_eq_nil_iff.mp hnil).1
  have hrow' : RowTyped tracked (K b.1) b'.2 := hg ▸ h'.row
  by_cases hempty : b.2.isEmpty = true
  · -- nothing there yet: the new row is taken as it is
    have hcs : ∀ c ∈ cs, c.2.isEmpty = true := h.isEmpty.mp hempty
    refine ⟨(b.1, b'.2), by simp [mergeAggs, MergeAggRow, hempty], hnil, hgroup, hrow', ?_, ?_⟩
    · rw [h'.isEmpty]
      simp only [List.mem_append]
      exact ⟨fun hall c hc => hc.elim (hcs c) (hall c), fun hall c hc => hall c (Or.inr hc)⟩
    · intro k n htr hop hk
      rw [valuesAt_append, valuesAt_eq_nil hcs, List.nil_append]
      exact h'.total k n htr hop hk
  · have hne : b.2.isEmpty = false := Bool.eq_false_iff.mpr hempty
    obtain ⟨r, hr, htyped, hkeys, hval⟩ := mergeAggRow_spec h.row.typed hrow'.typed hne
    refine ⟨(b.1, r), by simp [mergeAggs, hr], hnil, hgroup, ⟨htyped, ?_⟩, ?_, ?_⟩
    · exact fun _ k htr => (hkeys k).trans (h.row.keys hne k htr)
    · rw [isEmpty_eq_false_of_keys hne hkeys]
      simp only [Bool.false_eq_true, List.mem_append, false_iff, not_forall]
      have := mt h.isEmpty.mpr hempty
      push Not at this
      obtain ⟨c, hc, hcne⟩ := this
      exact ⟨c, Or.inl hc, hcne⟩
    · intro k n htr hop hk
      obtain ⟨x, hx, ⟨hnone, rfl⟩ | ⟨y, hy, rfl⟩⟩ := hval k n hop hk
      · -- only a row without aggregates can lack a tracked key
        have hKk : K b.1 k := (h.row.keys hne k htr).mp (by rw [hx]; rfl)
        have hempty' : b'.2.isEmpty = true := by
          by_contra hne'
          have := (hrow'.keys (Bool.eq_false_iff.mpr hne') k htr).mpr hKk
          rw [hnone] at this
          cases this
        rw [valuesAt_append, valuesAt_eq_nil (h'.isEmpty.mp hempty'), List.append_nil]
        exact h.total k n htr hop hx
      · rw [valuesAt_append]
        exact (h.total k x htr hop hx).combine (h'.total k y htr hop hy)

theorem aggregateOf_isTotal (tracked : AggKey → Prop) (K : StatMap δ → AggKey → Prop) :
    IsTotal Prod.fst Prod.fst mergeAggs (AggregateOf (δ := δ) tracked K) where
  ne_nil h := h.ne_nil
  group_eq h := h.group_eq
  merge_group h := by
    obtain ⟨r, -, rfl⟩ := Option.map_eq_some_iff.mp h
    rfl
  merge_total := mergeAggs_total

end

/-- What the results compare: the group and its exact aggregates. -/
def rowView (b : StatMap δ × AggRow δ) : StatMap δ × AggRow δ :=
  (b.1, b.2.filterKeys fun k => k.oper.exact)

/-- Totals of the same contributions, in any order, look the same. -/
theorem AggregateOf.rowView_eq {tracked : AggKey → Prop} {K : StatMap δ → AggKey → Prop}
    (htr : ∀ k : AggKey, k.oper.exact = true → tracked k)
    {cs cs' : List (StatMap δ × AggRow δ)} {b b' : StatMap δ × AggRow δ}
    (h : AggregateOf tracked K cs b) (h' : AggregateOf tracked K cs' b') (hp : cs.Perm cs') :
    rowView b = rowView b' := by
  obtain ⟨c, hc⟩ := List.exists_mem_of_ne_nil _ h.ne_nil
  have hg : b.1 = b'.1 := (h.group_eq c hc).symm.trans (h'.group_eq c (hp.mem_iff.mp hc))
  have hempty : b.2.isEmpty = b'.2.isEmpty := by
    rw [Bool.eq_iff_iff, h.isEmpty, h'.isEmpty]
    exact ⟨fun hall c hc => hall c (hp.mem_iff.mpr hc), fun hall c hc => hall c (hp.mem_iff.mp hc)⟩
  refine Prod.ext hg (OrderedMap.ext_find fun k => ?_)
  show (b.2.filterKeys _).find? k = (b'.2.filterKeys _).find? k
  rw [OrderedMap.find?_filterKeys, OrderedMap.find?_filterKeys]
  by_cases hop : k.oper.exact = true
  swap
  · rw [if_neg hop, if_neg hop]
  rw [if_pos hop, if_pos hop]
  by_cases hb : b.2.isEmpty = true
  · rw [OrderedMap.isEmpty_iff.mp hb k, OrderedMap.isEmpty_iff.mp (hempty ▸ hb) k]
  · have hb : b.2.isEmpty = false := Bool.eq_false_iff.mpr hb
    have hkeys := h.row.keys hb k (htr k hop)
    have hkeys' := h'.row.keys (hempty ▸ hb) k (htr k hop)
    rw [← hg, ← hkeys] at hkeys'
    cases hk : b.2.find? k with
    | none =>
      rw [hk] at hkeys'
      exact (by simpa using hkeys' : b'.2.find? k = none).symm
    | some v =>
      obtain ⟨v', hv'⟩ := Option.isSome_iff_exists.mp (hkeys'.mpr (by rw [hk]; rfl))
      obtain ⟨n, rfl⟩ := WellTyped.exists_uint64 hop (h.row.typed k v hk)
      obtain ⟨n', rfl⟩ := WellTyped.exists_uint64 hop (h'.row.typed k v' hv')
      have htot := (h.total k n (htr k hop) hop hk).perm (hp.filterMap _)
      rw [hv', htot.unique (h'.total k n' (htr k hop) hop hv')]

-- ---------------------------------------------------------------------------
-- Keys
-- ---------------------------------------------------------------------------

section Keys

/-- A column has a value and its slot exists, or nothing comes out. -/
theorem fillSlots_cons {κ : Type} {lookup : κ → Option (StatVal δ)} {col : κ} {slot : Nat}
    {rest : List (κ × Nat)} {ukey ukey' : SortKey δ}
    (h : fillSlots lookup ((col, slot) :: rest) ukey = some ukey') :
    ∃ v, lookup col = some v ∧ slot < ukey.length ∧
      fillSlots lookup rest (ukey.set slot v) = some ukey' := by
  rw [fillSlots] at h
  split at h
  · cases h
  · next v hv =>
    split at h
    · next hslot => exact ⟨v, hv, hslot, h⟩
    · cases h

theorem fillSlots_length {κ : Type} {lookup : κ → Option (StatVal δ)} {l : List (κ × Nat)}
    {ukey ukey' : SortKey δ} (h : fillSlots lookup l ukey = some ukey') :
    ukey'.length = ukey.length := by
  induction l generalizing ukey with
  | nil =>
    injection h with h
    rw [h]
  | cons e rest ih =>
    obtain ⟨v, -, -, h⟩ := fillSlots_cons h
    rw [ih h, List.length_set]

/-- Filling succeeds when every column has a value and every slot exists. -/
theorem fillSlots_isSome_iff {κ : Type} {lookup : κ → Option (StatVal δ)} {l : List (κ × Nat)}
    {ukey : SortKey δ} : (fillSlots lookup l ukey).isSome = true ↔
      ∀ e ∈ l, (lookup e.1).isSome = true ∧ e.2 < ukey.length := by
  induction l generalizing ukey with
  | nil => simp [fillSlots]
  | cons e rest ih =>
    obtain ⟨col, slot⟩ := e
    rw [List.forall_mem_cons]
    simp only [fillSlots]
    cases hcol : lookup col with
    | none => simp
    | some v =>
      by_cases hslot : slot < ukey.length
      · simp [hslot, ih]
      · simp [hslot]

/-- A slot no column goes to is left alone. -/
theorem fillSlots_getElem?_of_not_mem {κ : Type} {lookup : κ → Option (StatVal δ)}
    {l : List (κ × Nat)} {ukey ukey' : SortKey δ} (h : fillSlots lookup l ukey = some ukey')
    {i : Nat} (hi : ∀ e ∈ l, e.2 ≠ i) : ukey'[i]? = ukey[i]? := by
  induction l generalizing ukey with
  | nil =>
    injection h with h
    rw [h]
  | cons e rest ih =>
    obtain ⟨v, -, -, h⟩ := fillSlots_cons h
    rw [ih h fun e he => hi e (List.mem_cons_of_mem _ he)]
    exact List.getElem?_set_ne (hi e List.mem_cons_self)

/-- A column with a slot of its own has its value there. -/
theorem fillSlots_getElem?_of_mem {κ : Type} {lookup : κ → Option (StatVal δ)}
    {l : List (κ × Nat)} {ukey ukey' : SortKey δ} (h : fillSlots lookup l ukey = some ukey')
    (hnd : (l.map Prod.snd).Nodup) {e : κ × Nat} (he : e ∈ l) : ukey'[e.2]? = lookup e.1 := by
  induction l generalizing ukey with
  | nil => exact absurd he (by simp)
  | cons hd rest ih =>
    rw [List.map_cons, List.nodup_cons] at hnd
    obtain ⟨v, hv, hslot, h⟩ := fillSlots_cons h
    rcases List.mem_cons.mp he with rfl | he
    · have hrest : ∀ e' ∈ rest, e'.2 ≠ e.2 := by
        intro e' he' heq
        exact hnd.1 (List.mem_map.mpr ⟨e', he', heq⟩)
      rw [fillSlots_getElem?_of_not_mem h hrest, hv]
      exact List.getElem?_set_self hslot
    · exact ih h hnd.2 he

variable (hash_range : StatMap δ → Fin (2 ^ 64)) (S : StatsSelect)

/-- The key of a group. -/
def keyOf (u : StatMap δ) : SortKey δ := (buildKey hash_range S u).getD []

theorem buildKey_length {u : StatMap δ} {ukey : SortKey δ}
    (h : buildKey hash_range S u = some ukey) : ukey.length = S.hash_slot + 1 := by
  rw [fillSlots_length h]
  simp [freshKey]

/-- A key is built when every sort column has a value and a slot. -/
theorem buildKey_isSome_iff {u : StatMap δ} : (buildKey hash_range S u).isSome = true ↔
    ∀ e ∈ S.sort_cols_.entries, (u.find? e.1).isSome = true ∧ e.2 ≤ S.hash_slot := by
  rw [buildKey, fillSlots_isSome_iff]
  simp [freshKey]

theorem buildKey_eq_keyOf {u : StatMap δ} (h : (buildKey hash_range S u).isSome = true) :
    buildKey hash_range S u = some (keyOf hash_range S u) := by
  obtain ⟨ukey, hu⟩ := Option.isSome_iff_exists.mp h
  rw [keyOf, hu]
  rfl

end Keys

-- ---------------------------------------------------------------------------
-- Loading and merging whole multimaps
-- ---------------------------------------------------------------------------

section Runs

variable [LinearOrder δ] [Numerics δ] (hash_range : StatMap δ → Fin (2 ^ 64)) (S : StatsSelect)

/-- What a row contributes: its group and its aggregates. -/
def contribution (s : Sample δ) : StatMap δ × AggRow δ :=
  (buildUniks S s, (buildAggs hash_range S (buildUniks S s) s.row).getD .empty)

/-- No assertion of `LoadRow` fails on the row itself. -/
def Loadable (s : Sample δ) : Prop :=
  (buildKey hash_range S (buildUniks S s)).isSome = true ∧
    (buildAggs hash_range S (buildUniks S s) s.row).isSome = true

/-- The multimap holds totals of the contributions `cs`. -/
abbrev Holds (Total : List (StatMap δ × AggRow δ) → StatMap δ × AggRow δ → Prop) (m : MapBuf δ)
    (cs : List (StatMap δ × AggRow δ)) : Prop :=
  Represents (keyOf hash_range S) Prod.fst Prod.fst Total m cs

/-- What the runs below assume of all rows together: they load, groups have
different keys, and each row by itself is a total. -/
structure Regular (Total : List (StatMap δ × AggRow δ) → StatMap δ × AggRow δ → Prop)
    (rows : List (Sample δ)) : Prop where
  status : S.status_ = true
  loadable : ∀ s ∈ rows, Loadable hash_range S s
  separated : ∀ s ∈ rows, ∀ s' ∈ rows,
    keyOf hash_range S (buildUniks S s) = keyOf hash_range S (buildUniks S s') →
      buildUniks S s = buildUniks S s'
  isTotal : IsTotal Prod.fst Prod.fst mergeAggs Total
  single : ∀ s ∈ rows, Total [contribution hash_range S s] (contribution hash_range S s)

theorem loadRow_eq {s : Sample δ} (hst : S.status_ = true) (h : Loadable hash_range S s)
    (output : MapBuf δ) : LoadRow hash_range S s output =
      output.mergeEntry sameUniks mergeAggs (keyOf hash_range S (buildUniks S s))
        (contribution hash_range S s) := by
  obtain ⟨narows, hn⟩ := Option.isSome_iff_exists.mp h.2
  unfold LoadRow contribution MergeFullRow
  rw [if_neg (by simp [hst])]
  simp only [buildKey_eq_keyOf hash_range S h.1, hn]
  rfl

theorem loadRow_eq_none {s : Sample δ} (hst : S.status_ = true) (h : ¬ Loadable hash_range S s)
    (output : MapBuf δ) : LoadRow hash_range S s output = none := by
  unfold LoadRow
  rw [if_neg (by simp [hst])]
  cases hkey : buildKey hash_range S (buildUniks S s) with
  | none => simp [hkey]
  | some ukey =>
    cases hagg : buildAggs hash_range S (buildUniks S s) s.row with
    | none => simp [hkey, hagg]
    | some narows => exact absurd ⟨by rw [hkey]; rfl, by rw [hagg]; rfl⟩ h

omit [Numerics δ] in
theorem sameUniks_iff (b b' : StatMap δ × AggRow δ) : sameUniks b b' = true ↔ b.1 = b'.1 := by
  simp [sameUniks]

variable {hash_range S} {Total : List (StatMap δ × AggRow δ) → StatMap δ × AggRow δ → Prop}
  {rows : List (Sample δ)}

/-- The contributions are contributions of the rows. -/
def From (hash_range : StatMap δ → Fin (2 ^ 64)) (S : StatsSelect) (rows : List (Sample δ))
    (cs : List (StatMap δ × AggRow δ)) : Prop :=
  ∀ c ∈ cs, ∃ s ∈ rows, c = contribution hash_range S s

omit [LinearOrder δ] in
theorem From.flatten {css : List (List (StatMap δ × AggRow δ))}
    (h : ∀ cs ∈ css, From hash_range S rows cs) : From hash_range S rows css.flatten := by
  intro c hc
  obtain ⟨cs, hcs, hc⟩ := List.mem_flatten.mp hc
  exact h cs hcs c hc

theorem loadChunk_eq (hst : S.status_ = true) {chunk : List (Sample δ)}
    (hl : ∀ s ∈ chunk, Loadable hash_range S s) :
    loadChunk hash_range S chunk = Multimap.mergeAll sameUniks mergeAggs
      (chunk.map fun s => (keyOf hash_range S (buildUniks S s), contribution hash_range S s))
      .empty := by
  unfold loadChunk Multimap.mergeAll
  rw [List.foldlM_map]
  have hcongr : ∀ (l : List (Sample δ)), (∀ s ∈ l, Loadable hash_range S s) → ∀ out : MapBuf δ,
      l.foldlM (fun output s => LoadRow hash_range S s output) out =
      l.foldlM (fun output s => output.mergeEntry sameUniks mergeAggs
        (keyOf hash_range S (buildUniks S s)) (contribution hash_range S s)) out := by
    intro l
    induction l with
    | nil => intros; rfl
    | cons s l ih =>
      intro hl out
      rw [List.foldlM_cons, List.foldlM_cons,
        loadRow_eq hash_range S hst (hl s (List.mem_cons_self ..))]
      exact bind_congr fun out' => ih (fun s' hs' => hl s' (List.mem_cons_of_mem _ hs')) out'
  exact hcongr chunk hl .empty

theorem loadChunk_represents (hR : Regular hash_range S Total rows)
    {chunk : List (Sample δ)} (hsub : ∀ s ∈ chunk, s ∈ rows) :
    ∃ m, loadChunk hash_range S chunk = some m ∧
      Holds hash_range S Total m (chunk.map (contribution hash_range S)) := by
  have hload := loadChunk_eq hR.status fun s hs => hR.loadable s (hsub s hs)
  have hes : ∀ e ∈ chunk.map fun s =>
      (keyOf hash_range S (buildUniks S s), contribution hash_range S s),
      e.1 = keyOf hash_range S e.2.1 ∧ Total [e.2] e.2 ∧
        ∃ s ∈ rows, buildUniks S s = e.2.1 := by
    intro e he
    obtain ⟨s, hs, rfl⟩ := List.mem_map.mp he
    exact ⟨rfl, hR.single s (hsub s hs), s, hsub s hs, rfl⟩
  obtain ⟨m, hm, hrep⟩ := represents_mergeTotals hR.isTotal sameUniks_iff
    (U := fun u => ∃ s ∈ rows, buildUniks S s = u)
    (by
      rintro u u' ⟨s, hs, rfl⟩ ⟨s', hs', rfl⟩ hk
      exact hR.separated s hs s' hs' hk)
    (fun e => [e.2]) hes represents_empty (fun c hc => absurd hc (by simp))
  refine ⟨m, hload.trans hm, ?_⟩
  rw [List.nil_append, List.flatMap_map] at hrep
  rw [← List.flatMap_singleton' (chunk.map _), List.flatMap_map]
  exact hrep

/-- Entries of groups without the column pass through `Merge` unchanged. -/
theorem mergeEntries_eq {field : String} {es : List (SortKey δ × (StatMap δ × AggRow δ))}
    (h : ∀ e ∈ es, e.2.1.find? field = none) (out : MapBuf δ) :
    mergeEntries hash_range field es out = out.mergeAll sameUniks mergeAggs es := by
  induction es generalizing out with
  | nil => rfl
  | cons e es ih =>
    have hdrop : dropDistinct hash_range field e = e := by
      unfold dropDistinct
      rw [h e (List.mem_cons_self ..)]
    unfold mergeEntries Multimap.mergeAll at *
    rw [List.foldlM_cons, List.foldlM_cons]
    simp only [hdrop]
    exact bind_congr fun out' => ih (fun e' he' => h e' (List.mem_cons_of_mem _ he')) out'

theorem merge_represents (hR : Regular hash_range S Total rows) {field : String}
    (hfield : ∀ s ∈ rows, (buildUniks S s).find? field = none) {m input : MapBuf δ}
    {cs ds : List (StatMap δ × AggRow δ)} (h : Holds hash_range S Total m cs)
    (hin : Holds hash_range S Total input ds) (hcs : From hash_range S rows cs)
    (hds : From hash_range S rows ds) :
    ∃ m', Merge hash_range field input m = some m' ∧
      Holds hash_range S Total m' (cs ++ ds) := by
  have hnone : ∀ e ∈ input.entries, e.2.1.find? field = none := by
    intro e he
    obtain ⟨c, hc, hce⟩ := hin.exists_contribution hR.isTotal he
    obtain ⟨s, hs, rfl⟩ := hds c hc
    rw [← hce]
    exact hfield s hs
  have hU : ∀ {cs}, From hash_range S rows cs → ∀ c ∈ cs, ∃ s ∈ rows, buildUniks S s = c.1 := by
    intro cs hcs c hc
    obtain ⟨s, hs, rfl⟩ := hcs c hc
    exact ⟨s, hs, rfl⟩
  unfold Merge
  rw [mergeEntries_eq hnone]
  exact represents_mergeAll hR.isTotal sameUniks_iff (U := fun u => ∃ s ∈ rows, buildUniks S s = u)
    (by
      rintro u u' ⟨s, hs, rfl⟩ ⟨s', hs', rfl⟩ hk
      exact hR.separated s hs s' hs' hk)
    h hin (hU hcs) (hU hds)

/-- The multimaps hold the corresponding contributions. -/
abbrev HoldAll (hash_range : StatMap δ → Fin (2 ^ 64)) (S : StatsSelect)
    (Total : List (StatMap δ × AggRow δ) → StatMap δ × AggRow δ → Prop) (ms : List (MapBuf δ))
    (css : List (List (StatMap δ × AggRow δ))) : Prop :=
  List.Forall₂ (Holds hash_range S Total) ms css

theorem mergeInputs_represents (hR : Regular hash_range S Total rows) {field : String}
    (hfield : ∀ s ∈ rows, (buildUniks S s).find? field = none) {inputs : List (MapBuf δ)}
    {css : List (List (StatMap δ × AggRow δ))} (hin : HoldAll hash_range S Total inputs css)
    (hcss : ∀ cs ∈ css, From hash_range S rows cs) {m : MapBuf δ}
    {cs : List (StatMap δ × AggRow δ)} (h : Holds hash_range S Total m cs)
    (hcs : From hash_range S rows cs) :
    ∃ m', mergeInputs hash_range field inputs m = some m' ∧
      Holds hash_range S Total m' (cs ++ css.flatten) := by
  induction hin generalizing m cs with
  | nil => exact ⟨m, rfl, by simpa using h⟩
  | cons hd _ ih =>
    rename_i input ds inputs dss _
    have hds := hcss ds (List.mem_cons_self ..)
    obtain ⟨m₁, hm₁, hrep₁⟩ := merge_represents hR hfield h hd hcs hds
    have hcs₁ : From hash_range S rows (cs ++ ds) := fun c hc =>
      (List.mem_append.mp hc).elim (hcs c) (hds c)
    obtain ⟨m', hm', hrep'⟩ := ih (fun cs' h' => hcss cs' (List.mem_cons_of_mem _ h')) hrep₁ hcs₁
    refine ⟨m', ?_, ?_⟩
    · unfold mergeInputs at hm' ⊢
      rw [List.foldlM_cons, hm₁]
      exact hm'
    · rw [List.flatten_cons, ← List.append_assoc]
      exact hrep'

end Runs

end StatsSelect

end TfAnalytics.QueryEngine
