import TfAnalytics.QueryEngine.FlowTerms

/-!
# Query engine — the filters of a flow query and those of WHERE

Each OR term of a flow query leaves a conjunction over, and the query has a disjunction
of conjunctions of its own. The constructor of `PostProcessingQuery` appends every one
of the former to every one of the latter.

* `where_filters_compose_iff` — when the result is the conjunction of the two.
* `composes_iff_processKeeps` — what that says of `process_query`.
-/

namespace TfAnalytics.QueryEngine.FlowWhere

open TfAnalytics.Lib TfAnalytics.Collector

-- ---------------------------------------------------------------------------
-- The filters of the query and those of WHERE
-- ---------------------------------------------------------------------------

/-- The WHERE clause of a query: its OR terms, and what they became. -/
structure WhereClause where
  direction_ing : Direction
  json_or : List (List WhereMatch)
  or_terms : List OrTerm
  nonempty : json_or ≠ []
  parsed : json_or.mapM (orTerm direction_ing) = some or_terms

/-- Rows are not looked at when there is no filter. `sat` is what a predicate says of
the row. -/
def Keeps (sat : FilterMatch → Prop) (filter_list : FilterList) : Prop :=
  filter_list.length ≠ 0 → filter_list.Admits sat

section Evaluator

variable {δ : Type} [LinearOrder δ] (C : Conversions δ) (attrs : StatMap δ)

/-- The check of `process_query` on the attribute of the row. -/
def Checked (f : FilterMatch) : Prop := ∀ v, attrs.find? f.name = some v → statCheck C f v = true

/-- The row has the attributes that the predicates name. -/
def Present (filter_list : FilterList) : Prop :=
  ∀ filter_and ∈ filter_list, ∀ f ∈ filter_and, (attrs.find? f.name).isSome = true

instance (filter_list : FilterList) : Decidable (Present attrs filter_list) :=
  inferInstanceAs (Decidable (∀ filter_and ∈ filter_list, ∀ f ∈ filter_and,
    (attrs.find? f.name).isSome = true))

theorem statKeeps_iff_admits {filter_list : FilterList} (h : Present attrs filter_list) :
    statKeeps C filter_list attrs = true ↔ filter_list.Admits (Checked C attrs) := by
  unfold statKeeps FilterList.Admits Checked
  rw [List.any_eq_true]
  refine exists_congr fun filter_and => and_congr_right fun hmem => ?_
  exact statAnd_iff (h filter_and hmem)

omit [LinearOrder δ] in
theorem present_postFilterList {filter_list where_list : FilterList}
    (hown : Present attrs filter_list) (hwhere : Present attrs where_list) :
    Present attrs (postFilterList filter_list where_list) := by
  unfold postFilterList
  split
  · exact hown
  · split
    · exact hwhere
    · intro filter_and hmem f hf
      obtain ⟨own, hin, rfl⟩ := List.mem_map.mp hmem
      rcases List.mem_append.mp hf with hf | hf
      · exact hown own hin f hf
      · obtain ⟨t, ht, hf⟩ := List.mem_flatten.mp hf
        exact hwhere t ht f hf

/-- `process_query` on a row, which it looks at if there is a filter. -/
def ProcessKeeps (filter_list : FilterList) : Prop :=
  filter_list.length ≠ 0 → statKeeps C filter_list attrs = true

end Evaluator

namespace WhereClause

variable (w : WhereClause)

/-- The predicates the OR terms leave over. -/
def leftovers : FilterList := w.or_terms.map OrTerm.filter_and

/-- The filter list of the constructor is the conjunction, on the row. A term that
leaves nothing over is satisfied. -/
def Composes (sat : FilterMatch → Prop) (filter_list : FilterList) : Prop :=
  Keeps sat (postFilterList filter_list (filter_list_ w.or_terms)) ↔
    Keeps sat filter_list ∧ w.leftovers.Admits sat

theorem leftovers_ne_nil : w.leftovers ≠ [] := by
  obtain ⟨direction_ing, json_or, or_terms, hnonempty, hparsed⟩ := w
  cases json_or with
  | nil => exact absurd rfl hnonempty
  | cons terms rest =>
    rw [List.mapM_cons] at hparsed
    obtain ⟨term, -, hparsed⟩ := Option.bind_eq_some_iff.mp hparsed
    obtain ⟨others, -, hparsed⟩ := Option.bind_eq_some_iff.mp hparsed
    injection hparsed with hparsed
    subst hparsed
    exact List.cons_ne_nil _ _

theorem mem_filter_list {filter_and : List FilterMatch} :
    filter_and ∈ filter_list_ w.or_terms ↔ filter_and ∈ w.leftovers ∧ filter_and ≠ [] := by
  unfold filter_list_ leftovers
  rw [List.mem_filter]
  simp

theorem filter_list_eq_nil : filter_list_ w.or_terms = [] ↔ ∀ t ∈ w.leftovers, t = [] := by
  rw [List.eq_nil_iff_forall_not_mem]
  simp only [mem_filter_list, ne_eq, not_and, not_not]

/-- Nothing is left over: no OR term has a say. -/
theorem composes_of_no_leftovers (sat : FilterMatch → Prop) (filter_list : FilterList)
    (h : ∀ t ∈ w.leftovers, t = []) : w.Composes sat filter_list := by
  have hadmits : w.leftovers.Admits sat := by
    obtain ⟨t, ht⟩ := List.exists_mem_of_ne_nil _ w.leftovers_ne_nil
    refine ⟨t, ht, ?_⟩
    rw [h t ht]
    exact nofun
  unfold Composes postFilterList
  rw [w.filter_list_eq_nil.mpr h]
  exact ⟨fun hkeeps => ⟨hkeeps, hadmits⟩, And.left⟩

/-- Without a filter in the query, the terms that leave something over decide. -/
theorem composes_nil_iff (sat : FilterMatch → Prop) (hsome : ¬ ∀ t ∈ w.leftovers, t = []) :
    w.Composes sat [] ↔
      (∃ t ∈ w.leftovers, t ≠ [] ∧ ∀ f ∈ t, sat f) ∨ [] ∉ w.leftovers := by
  have hne : filter_list_ w.or_terms ≠ [] := fun hnil => hsome (w.filter_list_eq_nil.mp hnil)
  have hpost : Keeps sat (postFilterList [] (filter_list_ w.or_terms)) ↔
      ∃ t ∈ w.leftovers, t ≠ [] ∧ ∀ f ∈ t, sat f := by
    have heq : postFilterList [] (filter_list_ w.or_terms) = filter_list_ w.or_terms := by
      unfold postFilterList
      simp
    have hlength : (filter_list_ w.or_terms).length ≠ 0 := fun h =>
      hne (List.length_eq_zero_iff.mp h)
    rw [heq, Keeps, imp_iff_right hlength]
    unfold FilterList.Admits
    simp only [mem_filter_list, and_assoc]
  have hwhere : w.leftovers.Admits sat ↔
      (∃ t ∈ w.leftovers, t ≠ [] ∧ ∀ f ∈ t, sat f) ∨ [] ∈ w.leftovers := by
    constructor
    · rintro ⟨t, ht, hall⟩
      by_cases hnil : t = []
      · rw [hnil] at ht
        exact Or.inr ht
      · exact Or.inl ⟨t, ht, hnil, hall⟩
    · rintro (⟨t, ht, -, hall⟩ | hnil)
      · exact ⟨t, ht, hall⟩
      · exact ⟨[], hnil, nofun⟩
  have hkeeps : Keeps sat [] := fun h => absurd rfl h
  unfold Composes
  rw [hpost, hwhere, and_iff_right hkeeps]
  generalize (∃ t ∈ w.leftovers, t ≠ [] ∧ ∀ f ∈ t, sat f) = someHolds
  generalize ([] ∈ w.leftovers) = someEmpty
  tauto

/-- With one, every clause of it gets the predicates of all terms. -/
theorem composes_cons_iff (sat : FilterMatch → Prop) {filter_list : FilterList}
    (hfilter : filter_list ≠ []) (hsome : ¬ ∀ t ∈ w.leftovers, t = []) :
    w.Composes sat filter_list ↔
      ¬ filter_list.Admits sat ∨ (∀ t ∈ w.leftovers, ∀ f ∈ t, sat f) ∨
        ¬ w.leftovers.Admits sat := by
  have hne : filter_list_ w.or_terms ≠ [] := fun hnil => hsome (w.filter_list_eq_nil.mp hnil)
  have hall : (∀ f ∈ (filter_list_ w.or_terms).flatten, sat f) ↔
      ∀ t ∈ w.leftovers, ∀ f ∈ t, sat f := by
    simp only [List.mem_flatten, mem_filter_list]
    constructor
    · intro h t ht f hf
      exact h f ⟨t, ⟨ht, List.ne_nil_of_mem hf⟩, hf⟩
    · rintro h f ⟨t, ⟨ht, -⟩, hf⟩
      exact h t ht f hf
  have hpost : Keeps sat (postFilterList filter_list (filter_list_ w.or_terms)) ↔
      filter_list.Admits sat ∧ ∀ t ∈ w.leftovers, ∀ f ∈ t, sat f := by
    have heq : postFilterList filter_list (filter_list_ w.or_terms) =
        filter_list.map fun filter_and => filter_and ++ (filter_list_ w.or_terms).flatten := by
      unfold postFilterList
      rw [if_neg (by simpa using hne), if_neg (by simpa using hfilter)]
    have hlength : (filter_list.map fun filter_and =>
        filter_and ++ (filter_list_ w.or_terms).flatten).length ≠ 0 := by
      simpa using hfilter
    rw [heq, Keeps, imp_iff_right hlength, ← hall]
    unfold FilterList.Admits
    simp only [List.mem_map, exists_exists_and_eq_and, List.forall_mem_append]
    constructor
    · rintro ⟨filter_and, hmem, hown, hwhere⟩
      exact ⟨⟨filter_and, hmem, hown⟩, hwhere⟩
    · rintro ⟨⟨filter_and, hmem, hown⟩, hwhere⟩
      exact ⟨filter_and, hmem, hown, hwhere⟩
  have hone : (∀ t ∈ w.leftovers, ∀ f ∈ t, sat f) → w.leftovers.Admits sat := by
    intro h
    obtain ⟨t, ht⟩ := List.exists_mem_of_ne_nil _ w.leftovers_ne_nil
    exact ⟨t, ht, h t ht⟩
  have hkeeps : Keeps sat filter_list ↔ filter_list.Admits sat :=
    imp_iff_right fun h => hfilter (List.length_eq_zero_iff.mp h)
  unfold Composes
  rw [hpost, hkeeps]
  generalize filter_list.Admits sat = own
  generalize w.leftovers.Admits sat = some at hone ⊢
  generalize (∀ t ∈ w.leftovers, ∀ f ∈ t, sat f) = all at hone ⊢
  tauto

/-- On rows that have the attributes, the lists mean what `process_query` makes of them. -/
theorem composes_iff_processKeeps {δ : Type} [LinearOrder δ] (C : Conversions δ)
    (attrs : StatMap δ) {filter_list : FilterList} (hown : Present attrs filter_list)
    (hwhere : Present attrs w.leftovers) :
    w.Composes (Checked C attrs) filter_list ↔
      (ProcessKeeps C attrs (postFilterList filter_list (filter_list_ w.or_terms)) ↔
        ProcessKeeps C attrs filter_list ∧ statKeeps C w.leftovers attrs = true) := by
  have hlist : Present attrs (filter_list_ w.or_terms) := fun t ht =>
    hwhere t (w.mem_filter_list.mp ht).1
  unfold Composes ProcessKeeps Keeps
  rw [statKeeps_iff_admits C attrs hown, statKeeps_iff_admits C attrs hwhere,
    statKeeps_iff_admits C attrs (present_postFilterList attrs hown hlist)]

end WhereClause

/-- When the filters of the query and those of WHERE are joined as two disjunctions of
conjunctions: on one row, where `sat` are the predicates it satisfies, and on all. -/
theorem where_filters_compose_iff (w : WhereClause) (filter_list : FilterList) :
    (∀ sat : FilterMatch → Prop, w.Composes sat filter_list ↔
      (∀ t ∈ w.leftovers, t = []) ∨
      (filter_list = [] ∧
        ((∃ t ∈ w.leftovers, t ≠ [] ∧ ∀ f ∈ t, sat f) ∨ [] ∉ w.leftovers)) ∨
      (filter_list ≠ [] ∧
        (¬ filter_list.Admits sat ∨ (∀ t ∈ w.leftovers, ∀ f ∈ t, sat f) ∨
          ¬ w.leftovers.Admits sat))) ∧
    ((∀ sat : FilterMatch → Prop, w.Composes sat filter_list) ↔
      (∀ t ∈ w.leftovers, t = []) ∨
      (filter_list = [] ∧ [] ∉ w.leftovers) ∨
      (filter_list ≠ [] ∧ ∀ own ∈ filter_list, ∀ t ∈ w.leftovers, ∀ t' ∈ w.leftovers,
        ∀ f ∈ t', f ∈ own ∨ f ∈ t)) := by
  by_cases hnone : ∀ t ∈ w.leftovers, t = []
  · have hcomposes := fun sat => w.composes_of_no_leftovers sat filter_list hnone
    exact ⟨fun sat => ⟨fun _ => Or.inl hnone, fun _ => hcomposes sat⟩,
      fun _ => Or.inl hnone, fun _ => hcomposes⟩
  by_cases hfilter : filter_list = []
  · subst hfilter
    have hrow := fun sat => w.composes_nil_iff sat hnone
    simp only [hnone, hrow, true_and, false_or, ne_eq, not_true_eq_false, false_and, or_false,
      implies_true]
    refine ⟨fun h => ?_, fun h sat => Or.inr h⟩
    -- a row that satisfies nothing
    rcases h fun _ => False with ⟨t, -, hne, hall⟩ | hempty
    · obtain ⟨f, hf⟩ := List.exists_mem_of_ne_nil t hne
      exact absurd (hall f hf) id
    · exact hempty
  · have hrow := fun sat => w.composes_cons_iff sat hfilter hnone
    simp only [hnone, hfilter, hrow, false_or, false_and, ne_eq, not_false_eq_true, true_and,
      implies_true]
    refine ⟨fun h own hown t ht => ?_, fun h sat => ?_⟩
    · -- a row that satisfies just one clause of the one and one of the other
      rcases h fun f => f ∈ own ∨ f ∈ t with hreject | hall | hreject
      · exact absurd ⟨own, hown, fun f hf => Or.inl hf⟩ hreject
      · exact hall
      · exact absurd ⟨t, ht, fun f hf => Or.inr hf⟩ hreject
    · by_contra hnot
      push Not at hnot
      obtain ⟨⟨own, hown, hsat⟩, ⟨t', ht', f, hf, hfails⟩, t, ht, hwhere⟩ := hnot
      rcases h own hown t ht t' ht' f hf with hmem | hmem
      · exact hfails (hsat f hmem)
      · exact hfails (hwhere f hmem)

-- UDP, or web traffic over TCP.
def sampleWhere : WhereClause where
  direction_ing := .INGRESS
  json_or := [[{ field := .protocol, op := .EQUAL, value := "17" }],
    [{ field := .protocol, op := .EQUAL, value := "6" },
      { field := .dport, op := .EQUAL, value := "80" }],
    [{ field := .protocol, op := .EQUAL, value := "6" },
      { field := .dport, op := .EQUAL, value := "443" }]]
  or_terms := ([[{ field := .protocol, op := .EQUAL, value := "17" }],
    [{ field := .protocol, op := .EQUAL, value := "6" },
      { field := .dport, op := .EQUAL, value := "80" }],
    [{ field := .protocol, op := .EQUAL, value := "6" },
      { field := .dport, op := .EQUAL, value := "443" }]].mapM (orTerm .INGRESS)).get
        (by decide +kernel)
  nonempty := List.cons_ne_nil _ _
  parsed := (Option.some_get _).symm

def sampleFlow (dport : Fin (2 ^ 64)) : StatMap Nat :=
  .ofList [("dport", .uint64 dport), ("vrouter", .string "vr1")]

def sampleFilter : FilterList := [[{ name := "vrouter", value := "vr1", op := .EQUAL }]]

/-- With a filter on the vrouter, web traffic has to go to both ports at once. Without
one, UDP has to go to one of them. -/
theorem or_terms_conjoined :
    ¬ sampleWhere.Composes (Checked sampleConversions (sampleFlow 80)) sampleFilter ∧
    statKeeps sampleConversions sampleFilter (sampleFlow 80) = true ∧
    statKeeps sampleConversions sampleWhere.leftovers (sampleFlow 80) = true ∧
    statKeeps sampleConversions
      (postFilterList sampleFilter (filter_list_ sampleWhere.or_terms)) (sampleFlow 80) = false ∧
    ¬ sampleWhere.Composes (Checked sampleConversions (sampleFlow 53)) [] ∧
    statKeeps sampleConversions sampleWhere.leftovers (sampleFlow 53) = true ∧
    statKeeps sampleConversions
      (postFilterList [] (filter_list_ sampleWhere.or_terms)) (sampleFlow 53) = false := by
  refine ⟨fun h => ?_, rfl, rfl, rfl, fun h => ?_, rfl, rfl⟩
  · have hkeeps := (sampleWhere.composes_iff_processKeeps sampleConversions (sampleFlow 80)
      (by decide +kernel) (by decide +kernel)).mp h
    have hkept := hkeeps.mpr ⟨fun _ => rfl, rfl⟩ (by decide)
    cases hkept
  · have hkeeps := (sampleWhere.composes_iff_processKeeps sampleConversions (sampleFlow 53)
      (by decide) (by decide +kernel)).mp h
    have hkept := hkeeps.mpr ⟨fun hne => absurd rfl hne, rfl⟩ (by decide)
    cases hkept

end TfAnalytics.QueryEngine.FlowWhere
