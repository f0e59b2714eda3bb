import TfAnalytics.Lib.SortedCut
import TfAnalytics.QueryEngine.Filters
import Mathlib.Data.Sum.Order

/-!
# Query engine — sort and limit over chunks

The rows of message and object queries are sorted and cut chunk by chunk, merged
into the result of the instance chunk by chunk, and sorted and cut again when the
instances are joined. Descending order sorts and merges through reverse
iterators.

* `sort_field_comparator_eq` — the comparator compares the sort keys of two rows.
* `PostProcessing.instanceResult_spec` — an instance's result is in order and has
  the rows of its chunks.
* `PostProcessing.runPlan_keys` — the keys of the result are those of all rows,
  sorted and cut.
* `sort_limit_commute` — the same for the comparator of the code.

`stringToInteger` is a parameter, as in `Conversions`. `std::sort` is any
function that returns the same rows in the order of the comparator (`StdSort`);
in which order it leaves equal rows is not said.
-/

namespace TfAnalytics.QueryEngine

open TfAnalytics.Lib

-- ---------------------------------------------------------------------------
-- Ascending and descending
-- ---------------------------------------------------------------------------

section Order

variable {κ : Type} [LinearOrder κ]

/-- `a` may stand before `b`. -/
def Before (ascending : Bool) (a b : κ) : Prop := if ascending then a ≤ b else b ≤ a

instance (ascending : Bool) : DecidableRel (Before ascending : κ → κ → Prop) := fun a b => by
  unfold Before
  infer_instance

theorem before_true : (Before true : κ → κ → Prop) = (· ≤ ·) := by
  funext a b
  exact if_pos rfl

theorem before_false : (Before false : κ → κ → Prop) = (· ≥ ·) := by
  funext a b
  exact if_neg Bool.false_ne_true

instance (ascending : Bool) : Std.Total (Before ascending : κ → κ → Prop) := by
  cases ascending
  · rw [before_false]
    infer_instance
  · rw [before_true]
    infer_instance

instance (ascending : Bool) : IsTrans κ (Before ascending) := by
  cases ascending
  · rw [before_false]
    infer_instance
  · rw [before_true]
    infer_instance

instance (ascending : Bool) : Std.Antisymm (Before ascending : κ → κ → Prop) := by
  cases ascending
  · rw [before_false]
    infer_instance
  · rw [before_true]
    infer_instance

end Order

-- ---------------------------------------------------------------------------
-- The stages, for rows with a key
-- ---------------------------------------------------------------------------

namespace PostProcessing

variable {ω : Type} (p : PostProcessing ω)

/-- Rows as `process_query` and `final_merge_processing` sort them. -/
def inOrder (rows : List ω) : List ω :=
  if p.ascending then p.sort rows else (p.sort rows.reverse).reverse

/-- The chunks of one instance, each folded in with `merge_processing`. -/
def instanceResult (table : String) (filter : ω → Bool) (chunks : List (List ω)) : List ω :=
  chunks.foldl (fun output chunk =>
    (p.merge_processing true output (p.process_query table filter chunk)).2) []

/-- The instances with their chunks, joined with `final_merge_processing`. -/
def runPlan (table : String) (filter : ω → Bool) (plan : List (List (List ω))) : List ω :=
  (p.final_merge_processing true (plan.map (p.instanceResult table filter))).2

theorem fold_eq (output input : List ω) :
    (bufferFolding p true).fold true output input =
      some (true, (p.merge_processing true output input).2) := by
  show some (p.merge_processing true output input) = _
  have hok : (p.merge_processing true output input).1 = true := by
    unfold merge_processing
    rw [if_neg (show ¬ true = false by decide)]
    split
    · split <;> rfl
    · rfl
  exact congrArg some (Prod.ext hok rfl)

/-- This is what the pipeline folds. -/
theorem foldAll_eq_instanceResult (table : String) (filter : ω → Bool) (chunks : List (List ω)) :
    (bufferFolding p true).foldAll (chunks.map (p.process_query table filter)) =
      some (p.instanceResult table filter chunks) := by
  unfold Folding.foldAll instanceResult
  show (chunks.map (p.process_query table filter)).foldlM _ [] = _
  generalize ([] : List ω) = output
  induction chunks generalizing output with
  | nil => rfl
  | cons chunk chunks ih =>
    rw [List.map_cons, List.foldlM_cons, List.foldl_cons, ← ih,
      p.fold_eq output (p.process_query table filter chunk)]
    rfl

section Keys

variable {κ : Type} [LinearOrder κ] (key : ω → κ)

/-- What the stages need: the query is sorted, the comparator compares keys, and
`sort` returns the rows in the comparator's order. -/
structure SortsBy : Prop where
  sorted : p.sorted = true
  comparator : ∀ a b, p.sort_field_comparator a b = decide (key a < key b)
  sort_sorted : ∀ l, (p.sort l).Pairwise fun a b => key a ≤ key b

/-- Rows in the requested order. -/
def InOrder (rows : List ω) : Prop := rows.Pairwise fun a b => Before p.ascending (key a) (key b)

variable {p key}

theorem InOrder.map {rows : List ω} (h : p.InOrder key rows) :
    (rows.map key).Pairwise (Before p.ascending) :=
  List.pairwise_map.mpr h

theorem inOrder_perm (rows : List ω) : (p.inOrder rows).Perm rows := by
  unfold inOrder
  split
  · exact p.sort_perm rows
  · exact (List.reverse_perm _).trans ((p.sort_perm _).trans (List.reverse_perm rows))

theorem SortsBy.inOrder_inOrder (h : p.SortsBy key) (rows : List ω) :
    p.InOrder key (p.inOrder rows) := by
  unfold InOrder inOrder
  cases p.ascending with
  | true =>
    rw [if_pos rfl, before_true]
    exact h.sort_sorted rows
  | false =>
    rw [if_neg Bool.false_ne_true, before_false, List.pairwise_reverse]
    exact h.sort_sorted rows.reverse

/-- The keys of sorted rows are the sorted keys. -/
theorem SortsBy.inOrder_keys (h : p.SortsBy key) (rows : List ω) :
    (p.inOrder rows).map key = (rows.map key).insertionSort (Before p.ascending) :=
  eq_insertionSort _ (h.inOrder_inOrder rows).map ((inOrder_perm rows).map key)

/-- `std::inplace_merge` of two halves in the comparator's order. -/
theorem SortsBy.inplaceMerge_sorted (h : p.SortsBy key) {first second : List ω}
    (hfirst : first.Pairwise fun a b => key a ≤ key b)
    (hsecond : second.Pairwise fun a b => key a ≤ key b) :
    (p.inplaceMerge first second).Pairwise fun a b => key a ≤ key b := by
  have hle : ∀ a b, (!p.sort_field_comparator b a) = true ↔ key a ≤ key b := by
    intro a b
    rw [h.comparator]
    simp
  have htrans : ∀ a b c, (!p.sort_field_comparator b a) = true →
      (!p.sort_field_comparator c b) = true → (!p.sort_field_comparator c a) = true :=
    fun a b c hab hbc => (hle a c).mpr (le_trans ((hle a b).mp hab) ((hle b c).mp hbc))
  have htotal : ∀ a b, ((!p.sort_field_comparator b a) || !p.sort_field_comparator a b) = true := by
    intro a b
    rw [Bool.or_eq_true, hle, hle]
    exact le_total (key a) (key b)
  have hmerged := List.pairwise_merge htrans htotal first second
    (hfirst.imp fun hab => (hle _ _).mpr hab) (hsecond.imp fun hab => (hle _ _).mpr hab)
  exact hmerged.imp fun hab => (hle _ _).mp hab

theorem merge_processing_perm (output input : List ω) :
    (p.merge_processing true output input).2.Perm (output ++ input) := by
  unfold merge_processing inplaceMerge
  rw [if_neg (show ¬ true = false by decide)]
  split
  · split
    · exact List.merge_perm_append _
    · exact (List.reverse_perm _).trans ((List.merge_perm_append _).trans
        (((List.reverse_perm _).append (List.reverse_perm _)).trans List.perm_append_comm))
  · exact List.Perm.refl _

theorem SortsBy.merge_processing_inOrder (h : p.SortsBy key) {output input : List ω}
    (houtput : p.InOrder key output) (hinput : p.InOrder key input) :
    p.InOrder key (p.merge_processing true output input).2 := by
  unfold merge_processing
  rw [if_neg (show ¬ true = false by decide)]
  by_cases hempty : output.length = 0
  · rw [if_neg (fun hcond => hcond.2 hempty), List.length_eq_zero_iff.mp hempty]
    exact hinput
  · rw [if_pos ⟨h.sorted, hempty⟩]
    unfold InOrder at houtput hinput ⊢
    cases hasc : p.ascending with
    | true =>
      rw [hasc, before_true] at houtput hinput
      rw [if_pos rfl, before_true]
      exact h.inplaceMerge_sorted houtput hinput
    | false =>
      -- the reverse iterators see both halves in ascending order
      rw [hasc, before_false] at houtput hinput
      rw [if_neg Bool.false_ne_true, before_false, List.pairwise_reverse]
      exact h.inplaceMerge_sorted (List.pairwise_reverse.mpr hinput)
        (List.pairwise_reverse.mpr houtput)

/-- `process_query` sorts the chunk and cuts it, at the limit or not at all. -/
theorem process_query_eq (hsorted : p.sorted = true) (table : String) (filter : ω → Bool)
    (chunk : List ω) : ∃ n, (n = p.limit ∨ n = 0) ∧
      p.process_query table filter chunk = cut n (p.inOrder (chunk.filter filter)) := by
  refine ⟨StatsSelect.processQueryLimit table (can_parallelize_query table) p.limit, ?_, ?_⟩
  · unfold StatsSelect.processQueryLimit
    split
    · exact Or.inl rfl
    · exact Or.inr rfl
  · unfold process_query cut inOrder
    rw [hsorted]
    rfl

theorem SortsBy.process_query_inOrder (h : p.SortsBy key) (table : String) (filter : ω → Bool)
    (chunk : List ω) : p.InOrder key (p.process_query table filter chunk) := by
  obtain ⟨n, -, heq⟩ := process_query_eq h.sorted table filter chunk
  rw [heq]
  exact Pairwise.cut (h.inOrder_inOrder _) n

/-- An instance's result is in order, and has the rows of its chunks' outputs. -/
theorem SortsBy.instanceResult_spec (h : p.SortsBy key) (table : String) (filter : ω → Bool)
    (chunks : List (List ω)) :
    p.InOrder key (p.instanceResult table filter chunks) ∧
      (p.instanceResult table filter chunks).Perm
        (chunks.map (p.process_query table filter)).flatten := by
  unfold instanceResult
  suffices hloop : ∀ (rest : List (List ω)) (output : List ω), p.InOrder key output →
      p.InOrder key (rest.foldl (fun output chunk =>
        (p.merge_processing true output (p.process_query table filter chunk)).2) output) ∧
      (rest.foldl (fun output chunk =>
        (p.merge_processing true output (p.process_query table filter chunk)).2) output).Perm
        (output ++ (rest.map (p.process_query table filter)).flatten) from
    hloop chunks [] List.Pairwise.nil
  intro rest
  induction rest with
  | nil =>
    intro output houtput
    refine ⟨houtput, ?_⟩
    rw [List.map_nil, List.flatten_nil, List.append_nil]
    exact List.Perm.refl _
  | cons chunk rest ih =>
    intro output houtput
    have hstep := h.merge_processing_inOrder houtput (h.process_query_inOrder table filter chunk)
    obtain ⟨hinOrder, hperm⟩ := ih _ hstep
    refine ⟨hinOrder, hperm.trans ?_⟩
    rw [List.map_cons, List.flatten_cons, ← List.append_assoc]
    exact (merge_processing_perm output _).append_right _

/-- The result is in order, and its keys are those of all rows, sorted and cut. -/
theorem SortsBy.runPlan_keys (h : p.SortsBy key) (table : String) (filter : ω → Bool)
    {plan : List (List (List ω))} {chunks : List (List ω)} (hplan : plan.flatten.Perm chunks) :
    p.InOrder key (p.runPlan table filter plan) ∧
      (p.runPlan table filter plan).map key =
        sortCut (Before p.ascending) p.limit ((chunks.flatten.filter filter).map key) := by
  have hrun : p.runPlan table filter plan =
      cut p.limit (p.inOrder (plan.map (p.instanceResult table filter)).flatten) := by
    unfold runPlan final_merge_processing cut inOrder
    rw [if_neg (show ¬ true = false by decide), h.sorted]
    rfl
  -- the rows that come to the last sort, whatever instance they come from
  have hrows : (plan.map (p.instanceResult table filter)).flatten.Perm
      (chunks.map (p.process_query table filter)).flatten := by
    have hinstances : ∀ plan : List (List (List ω)),
        (plan.map (p.instanceResult table filter)).flatten.Perm
          (plan.flatten.map (p.process_query table filter)).flatten := by
      intro plan
      induction plan with
      | nil => exact List.Perm.refl _
      | cons chunks plan ih =>
        rw [List.map_cons, List.flatten_cons, List.flatten_cons, List.map_append,
          List.flatten_append]
        exact (h.instanceResult_spec table filter chunks).2.append ih
    exact (hinstances plan).trans (hplan.map _).flatten
  constructor
  · rw [hrun]
    exact Pairwise.cut (h.inOrder_inOrder _) _
  · rw [hrun, map_cut, h.inOrder_keys]
    show sortCut (Before p.ascending) p.limit _ = _
    rw [sortCut_congr _ (hrows.map key), List.map_flatten, List.filter_flatten, List.map_flatten,
      List.map_map, List.map_map]
    apply sortCut_flatten
    rw [List.forall₂_map_left_iff, List.forall₂_map_right_iff, List.forall₂_same]
    intro chunk _
    obtain ⟨n, hn, heq⟩ := process_query_eq h.sorted table filter chunk
    show (p.process_query table filter chunk).map key = _ ∨
      ((p.process_query table filter chunk).map key).Perm ((chunk.filter filter).map key)
    rw [heq, map_cut, h.inOrder_keys]
    rcases hn with rfl | rfl
    · exact Or.inl rfl
    · exact Or.inr (List.perm_insertionSort _ _)

end Keys

end PostProcessing

-- ---------------------------------------------------------------------------
-- PostProcessingQuery::sort_field_comparator
-- ---------------------------------------------------------------------------

/-- `sort_field_t`. -/
structure SortField where
  name : String
  type : String

/-- `QEOpServerProxy::ResultRowT`: the columns, and the row's metadata. -/
abbrev ResultRow (μ : Type) : Type := TextRow × μ

inductive SortOp where
  | ASCENDING | DESCENDING
  deriving DecidableEq

def SortField.isNumber (f : SortField) : Bool :=
  f.type = "int" || f.type = "long" || f.type = "ipv4"

section Comparator

variable {μ : Type} (stringToInteger : String → Fin (2 ^ 64))

/-- `none` is a failed `QE_ASSERT`. -/
def sort_field_comparator : List SortField → (lhs rhs : ResultRow μ) → Option Bool
  | [], _, _ => some false
  | f :: sort_fields, lhs, rhs =>
    match lhs.1.find? f.name, rhs.1.find? f.name with
    | some lhs_it, some rhs_it =>
      if f.isNumber then
        if stringToInteger lhs_it < stringToInteger rhs_it then some true
        else if stringToInteger lhs_it > stringToInteger rhs_it then some false
        else sort_field_comparator sort_fields lhs rhs
      else
        if lhs_it < rhs_it then some true
        else if lhs_it > rhs_it then some false
        else sort_field_comparator sort_fields lhs rhs
    | _, _ => none

/-- The row has every column it is sorted by. -/
def Carries (sort_fields : List SortField) (row : ResultRow μ) : Prop :=
  ∀ f ∈ sort_fields, ∃ text, row.1.find? f.name = some text

/-- A field's value: a number or a text, as the comparator takes it. -/
def SortField.keyOf (f : SortField) (row : ResultRow μ) : Fin (2 ^ 64) ⊕ₗ String :=
  let text := (row.1.find? f.name).getD ""
  if f.isNumber then Sum.inlₗ (stringToInteger text) else Sum.inrₗ text

/-- The sort key of a row. -/
def rowKey (sort_fields : List SortField) (row : ResultRow μ) : List (Fin (2 ^ 64) ⊕ₗ String) :=
  sort_fields.map fun f => f.keyOf stringToInteger row

/-- The comparator never misses a column, and compares the sort keys. -/
theorem sort_field_comparator_eq {sort_fields : List SortField} {lhs rhs : ResultRow μ}
    (hlhs : Carries sort_fields lhs) (hrhs : Carries sort_fields rhs) :
    sort_field_comparator stringToInteger sort_fields lhs rhs =
      some (decide (rowKey stringToInteger sort_fields lhs < rowKey stringToInteger sort_fields rhs)) := by
  induction sort_fields with
  | nil => rfl
  | cons f sort_fields ih =>
    have hrest := ih (fun g hg => hlhs g (List.mem_cons_of_mem _ hg))
      (fun g hg => hrhs g (List.mem_cons_of_mem _ hg))
    obtain ⟨l, hl⟩ := hlhs f List.mem_cons_self
    obtain ⟨r, hr⟩ := hrhs f List.mem_cons_self
    have hkeys : rowKey stringToInteger (f :: sort_fields) lhs <
        rowKey stringToInteger (f :: sort_fields) rhs ↔
        f.keyOf stringToInteger lhs < f.keyOf stringToInteger rhs ∨
        f.keyOf stringToInteger lhs = f.keyOf stringToInteger rhs ∧
        rowKey stringToInteger sort_fields lhs < rowKey stringToInteger sort_fields rhs :=
      List.cons_lt_cons_iff
    simp only [hkeys, SortField.keyOf, hl, hr, Option.getD_some, sort_field_comparator, hrest]
    cases f.isNumber with
    | true =>
      simp only [if_true, Sum.Lex.inl_lt_inl_iff]
      rcases lt_trichotomy (stringToInteger l) (stringToInteger r) with h | h | h
      · simp [h]
      · simp [h]
      · simp [h, not_lt_of_gt h, ne_of_gt h]
    | false =>
      simp only [Bool.false_eq_true, if_false, Sum.Lex.inr_lt_inr_iff]
      rcases lt_trichotomy l r with h | h | h
      · simp [h]
      · simp [h]
      · simp [h, not_lt_of_gt h, ne_of_gt h]

end Comparator

-- ---------------------------------------------------------------------------
-- The query's sort and limit
-- ---------------------------------------------------------------------------

/-- `std::sort` with a comparator. -/
structure StdSort {ω : Type} (less : ω → ω → Bool) where
  sort : List ω → List ω
  perm : ∀ l, (sort l).Perm l
  sorted : ∀ l, (sort l).Pairwise fun a b => less b a = false

section Query

variable {μ : Type} (stringToInteger : String → Fin (2 ^ 64)) (sort_fields : List SortField)

/-- The rows of a result: they have every column of the SORT. -/
abbrev SortableRow (μ : Type) (sort_fields : List SortField) : Type :=
  { row : ResultRow μ // Carries sort_fields row }

/-- The comparator on rows for which it does not assert. -/
def lessRow (lhs rhs : SortableRow μ sort_fields) : Bool :=
  (sort_field_comparator stringToInteger sort_fields lhs.1 rhs.1).get
    (by rw [sort_field_comparator_eq stringToInteger lhs.2 rhs.2]; rfl)

theorem lessRow_eq (lhs rhs : SortableRow μ sort_fields) :
    lessRow stringToInteger sort_fields lhs rhs =
      decide (rowKey stringToInteger sort_fields lhs.1 < rowKey stringToInteger sort_fields rhs.1) := by
  unfold lessRow
  apply Option.some_inj.mp
  rw [Option.some_get, sort_field_comparator_eq stringToInteger lhs.2 rhs.2]

/-- The `PostProcessingQuery` of a request with SORT. `limit` is an `int`, and a
negative one is above every size as a `size_t`. -/
def postProcessing (S : StdSort (@lessRow μ stringToInteger sort_fields))
    (sorting_type : SortOp) (limit : Int) : PostProcessing (SortableRow μ sort_fields) where
  sorted := true
  ascending := sorting_type = .ASCENDING
  limit := limit.toNat
  sort_field_comparator := lessRow stringToInteger sort_fields
  sort := S.sort
  sort_perm := S.perm

variable (S : StdSort (@lessRow μ stringToInteger sort_fields))

theorem sortsBy (sorting_type : SortOp) (limit : Int) :
    (postProcessing stringToInteger sort_fields S sorting_type limit).SortsBy
      fun row => rowKey stringToInteger sort_fields row.1 where
  sorted := rfl
  comparator a b := by
    rw [decide_eq_decide.mpr Iff.rfl]
    exact lessRow_eq stringToInteger sort_fields a b
  sort_sorted l := (S.sorted l).imp fun {a b} hab => by
    rw [lessRow_eq] at hab
    simpa using hab

/-- Sorted and cut by chunk, merged by instance and joined, the rows come out in
the requested order, and with the sort keys of the rows of all chunks sorted and
cut at once, whatever instance had which chunk and in which order. -/
theorem sort_limit_commute (sorting_type : SortOp) (limit : Int) (table : String)
    (filter : SortableRow μ sort_fields → Bool)
    {plan : List (List (List (SortableRow μ sort_fields)))}
    {chunks : List (List (SortableRow μ sort_fields))} (hplan : plan.flatten.Perm chunks) :
    let p := postProcessing stringToInteger sort_fields S sorting_type limit
    (p.runPlan table filter plan).Pairwise (fun a b =>
        match sorting_type with
        | .ASCENDING => lessRow stringToInteger sort_fields b a = false
        | .DESCENDING => lessRow stringToInteger sort_fields a b = false) ∧
      (p.runPlan table filter plan).map (fun row => rowKey stringToInteger sort_fields row.1) =
        sortCut (Before (sorting_type = .ASCENDING)) limit.toNat
          ((chunks.flatten.filter filter).map fun row => rowKey stringToInteger sort_fields row.1) := by
  obtain ⟨hinOrder, hkeys⟩ := (sortsBy stringToInteger sort_fields S sorting_type limit).runPlan_keys
    table filter hplan
  refine ⟨hinOrder.imp fun {a b} hab => ?_, hkeys⟩
  cases sorting_type with
  | ASCENDING =>
    have hle : rowKey stringToInteger sort_fields a.1 ≤ rowKey stringToInteger sort_fields b.1 := hab
    show lessRow stringToInteger sort_fields b a = false
    rw [lessRow_eq, decide_eq_false (not_lt_of_ge hle)]
  | DESCENDING =>
    have hle : rowKey stringToInteger sort_fields b.1 ≤ rowKey stringToInteger sort_fields a.1 := hab
    show lessRow stringToInteger sort_fields a b = false
    rw [lessRow_eq, decide_eq_false (not_lt_of_ge hle)]

/-- Merge sort is one. -/
def mergeSorted : StdSort (@lessRow μ stringToInteger sort_fields) where
  sort l := l.mergeSort fun a b => !lessRow stringToInteger sort_fields b a
  perm l := List.mergeSort_perm l _
  sorted l := by
    have hle : ∀ a b : SortableRow μ sort_fields,
        (!lessRow stringToInteger sort_fields b a) = true ↔
          rowKey stringToInteger sort_fields a.1 ≤ rowKey stringToInteger sort_fields b.1 := by
      intro a b
      rw [lessRow_eq]
      simp
    refine (List.pairwise_mergeSort ?_ ?_ l).imp fun {a b} hab => by simpa using hab
    · intro a b c hab hbc
      exact (hle a c).mpr (le_trans ((hle a b).mp hab) ((hle b c).mp hbc))
    · intro a b
      rw [Bool.or_eq_true, hle, hle]
      exact le_total _ _

end Query

/-- A row with the number `n` in its column. -/
def numberedRow (n : Nat) : SortableRow Unit [⟨"n", "int"⟩] :=
  ⟨(.ofList [("n", toString n)], ()), fun f hf => by
    obtain rfl := List.mem_singleton.mp hf
    exact ⟨toString n, rfl⟩⟩

theorem sort_limit_commute_sample :
    ((postProcessing sampleConversions.stringToInteger [⟨"n", "int"⟩] (mergeSorted _ _) .DESCENDING
        1).runPlan "MessageTable" (fun _ => true) [[[numberedRow 2]], [[numberedRow 1]]]).map
        (fun row => rowKey sampleConversions.stringToInteger [⟨"n", "int"⟩] row.1) =
      [[Sum.inlₗ 2]] := by
  have hplan : [[[numberedRow 2]], [[numberedRow 1]]].flatten.Perm
      [[numberedRow 1], [numberedRow 2]] := List.Perm.swap _ _ _
  rw [(sort_limit_commute sampleConversions.stringToInteger [⟨"n", "int"⟩] (mergeSorted _ _)
    .DESCENDING 1 "MessageTable" (fun _ => true) hplan).2]
  decide +kernel

end TfAnalytics.QueryEngine
