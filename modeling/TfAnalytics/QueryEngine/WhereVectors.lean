import TfAnalytics.QueryEngine.WhereQuery
import TfAnalytics.QueryEngine.StatTags

/-!
# Query engine — splitting multi-valued tag predicates

A column of tags can be compared once in a sub-query. The predicates of a WHERE
term on such columns are therefore dealt out over several vectors
(`populate_stats_where_vec_list`, `populate_session_where_vec_list`): the i-th
vector has the base predicates and the i-th predicate of each list that has one.
There is one sub-query for each vector and `subquery_processed` intersects their
results.

The number of vectors is the length of the longest list, in a `uint16_t`. From
65536 predicates on it wraps and the predicates beyond it are in no vector.

Main results:

* `conjunction_dealOut` — what the vectors say together, whatever their number.
* `split_without_loss_iff` — nothing is lost if and only if no list reaches
  65536 predicates, or all that is cut off is said elsewhere.
-/

namespace TfAnalytics.QueryEngine

/-- `P` stands for `GenDb::WhereIndexInfo`. -/
abbrev WhereIndexInfoVec (P : Type) : Type := List P

section

variable {P : Type}

-- ---------------------------------------------------------------------------
-- populate_stats_where_vec_list, populate_session_where_vec_list
-- ---------------------------------------------------------------------------

/-- `max_tags`: each assignment keeps 16 bits of the size. -/
def statsMaxTags (where_vec_tags_stats : List (WhereIndexInfoVec P)) : Nat :=
  where_vec_tags_stats.foldl
    (fun max_tags where_vec =>
      if max_tags < where_vec.length then where_vec.length % 2 ^ 16 else max_tags) 0

def populate_stats_where_vec_list (where_vec_stats : WhereIndexInfoVec P)
    (where_vec_tags_stats : List (WhereIndexInfoVec P)) : List (WhereIndexInfoVec P) :=
  let max_tags := statsMaxTags where_vec_tags_stats
  if max_tags = 0 then [where_vec_stats]
  else
    (List.range max_tags).map fun i =>
      where_vec_tags_stats.foldl
        (fun where_vec where_vec_tags =>
          match where_vec_tags[i]? with
          | some tag => where_vec ++ [tag]
          | none => where_vec) where_vec_stats

/-- `max_random_attr`. -/
def sessionMaxAttr (labels_vec remote_labels_vec custom_tags_vec remote_custom_tags_vec :
    WhereIndexInfoVec P) : Nat :=
  max (max (max labels_vec.length remote_labels_vec.length) custom_tags_vec.length)
    remote_custom_tags_vec.length % 2 ^ 16

/-- `if (i < vec.size()) where_vec.push_back(vec[i])`. -/
def pushAt (vec : WhereIndexInfoVec P) (i : Nat) (where_vec : WhereIndexInfoVec P) :
    WhereIndexInfoVec P :=
  match vec[i]? with
  | some info => where_vec ++ [info]
  | none => where_vec

def populate_session_where_vec_list (rest_where_vec labels_vec remote_labels_vec custom_tags_vec
    remote_custom_tags_vec : WhereIndexInfoVec P) : List (WhereIndexInfoVec P) :=
  let max_random_attr :=
    sessionMaxAttr labels_vec remote_labels_vec custom_tags_vec remote_custom_tags_vec
  if max_random_attr = 0 then [rest_where_vec]
  else
    (List.range max_random_attr).map fun i =>
      let where_vec := pushAt labels_vec i rest_where_vec
      let where_vec := pushAt remote_labels_vec i where_vec
      let where_vec := pushAt custom_tags_vec i where_vec
      pushAt remote_custom_tags_vec i where_vec

-- ---------------------------------------------------------------------------
-- What is asked of the vectors
-- ---------------------------------------------------------------------------

/-- At most one predicate of each list, in the order of the lists. -/
inductive OneOfEach : List (WhereIndexInfoVec P) → WhereIndexInfoVec P → Prop where
  | nil : OneOfEach [] []
  | skip {vec : WhereIndexInfoVec P} {lists : List (WhereIndexInfoVec P)}
      {picked : WhereIndexInfoVec P} (h : OneOfEach lists picked) : OneOfEach (vec :: lists) picked
  | pick {info : P} {vec : WhereIndexInfoVec P} {lists : List (WhereIndexInfoVec P)}
      {picked : WhereIndexInfoVec P} (hmem : info ∈ vec) (h : OneOfEach lists picked) :
      OneOfEach (vec :: lists) (info :: picked)

/-- The rows a sub-query with this vector answers with. -/
def selectRows {ν : Type} (holds : QueryResultUnit ν → P → Bool) (rows : WhereResultT ν)
    (where_vec : WhereIndexInfoVec P) : WhereResultT ν :=
  rows.filter fun row => where_vec.all (holds row)

/-- The vectors split `base` and `lists` without loss. -/
structure SplitWithoutLoss (base : WhereIndexInfoVec P) (lists : List (WhereIndexInfoVec P))
    (where_vec_list : List (WhereIndexInfoVec P)) : Prop where
  nonempty : where_vec_list ≠ []
  one_of_each : ∀ where_vec ∈ where_vec_list,
    ∃ picked, OneOfEach lists picked ∧ where_vec = base ++ picked
  /-- Whatever the predicates mean, the vectors together mean all of them. -/
  conjunction : ∀ sat : P → Prop, (∀ where_vec ∈ where_vec_list, ∀ p ∈ where_vec, sat p) ↔
    (∀ p ∈ base, sat p) ∧ ∀ vec ∈ lists, ∀ p ∈ vec, sat p
  /-- The sub-queries, intersected, answer with the rows that satisfy all. -/
  intersection : ∀ (ν : Type) [LinearOrder ν] (n : Nat) (rows : WhereResultT ν)
    (holds : QueryResultUnit ν → P → Bool), SortedUnits n rows →
    op_and (where_vec_list.map (selectRows holds rows)) =
      some (selectRows holds rows (base ++ lists.flatten))

-- ---------------------------------------------------------------------------
-- Dealing out m rounds
-- ---------------------------------------------------------------------------

/-- What both functions do with `m` for the number of vectors. -/
def dealOut (base : WhereIndexInfoVec P) (lists : List (WhereIndexInfoVec P)) (m : Nat) :
    List (WhereIndexInfoVec P) :=
  if m = 0 then [base] else (List.range m).map fun i => base ++ lists.filterMap (·[i]?)

theorem foldl_push (lists : List (WhereIndexInfoVec P)) (i : Nat) (base : WhereIndexInfoVec P) :
    lists.foldl (fun where_vec vec => pushAt vec i where_vec) base =
      base ++ lists.filterMap (·[i]?) := by
  induction lists generalizing base with
  | nil => simp
  | cons vec lists ih =>
    rw [List.foldl_cons, ih, pushAt]
    cases h : vec[i]? with
    | none => simp [h]
    | some info => simp [h]

theorem populate_stats_eq (where_vec_stats : WhereIndexInfoVec P)
    (where_vec_tags_stats : List (WhereIndexInfoVec P)) :
    populate_stats_where_vec_list where_vec_stats where_vec_tags_stats =
      dealOut where_vec_stats where_vec_tags_stats (statsMaxTags where_vec_tags_stats) := by
  unfold populate_stats_where_vec_list dealOut
  simp only [← foldl_push]
  rfl

theorem populate_session_eq (rest labels remote_labels custom remote_custom :
    WhereIndexInfoVec P) :
    populate_session_where_vec_list rest labels remote_labels custom remote_custom =
      dealOut rest [labels, remote_labels, custom, remote_custom]
        (sessionMaxAttr labels remote_labels custom remote_custom) := by
  unfold populate_session_where_vec_list dealOut
  simp only [← foldl_push]
  rfl

variable {base : WhereIndexInfoVec P} {lists : List (WhereIndexInfoVec P)} {m : Nat}

theorem dealOut_ne_nil : dealOut base lists m ≠ [] := by
  unfold dealOut
  split
  · simp
  · simp
    omega

theorem oneOfEach_filterMap (lists : List (WhereIndexInfoVec P)) (i : Nat) :
    OneOfEach lists (lists.filterMap (·[i]?)) := by
  induction lists with
  | nil => exact .nil
  | cons vec lists ih =>
    rw [List.filterMap_cons]
    cases h : vec[i]? with
    | none => exact .skip ih
    | some info => exact .pick (List.mem_of_getElem? h) ih

theorem oneOfEach_nil (lists : List (WhereIndexInfoVec P)) : OneOfEach lists [] := by
  induction lists with
  | nil => exact .nil
  | cons vec lists ih => exact .skip ih

theorem one_of_each_dealOut {where_vec : WhereIndexInfoVec P}
    (h : where_vec ∈ dealOut base lists m) :
    ∃ picked, OneOfEach lists picked ∧ where_vec = base ++ picked := by
  unfold dealOut at h
  split at h
  · rw [List.mem_singleton] at h
    exact ⟨[], oneOfEach_nil lists, by simp [h]⟩
  · obtain ⟨i, -, rfl⟩ := List.mem_map.mp h
    exact ⟨_, oneOfEach_filterMap lists i, rfl⟩

theorem mem_take_iff_getElem? {vec : WhereIndexInfoVec P} {p : P} :
    p ∈ vec.take m ↔ ∃ i < m, vec[i]? = some p := by
  rw [List.mem_iff_getElem?]
  constructor
  · rintro ⟨i, hi⟩
    rw [List.getElem?_take] at hi
    split at hi
    next hlt => exact ⟨i, hlt, hi⟩
    · exact absurd hi (by simp)
  · rintro ⟨i, hlt, hi⟩
    exact ⟨i, by rw [List.getElem?_take, if_pos hlt, hi]⟩

/-- The vectors together say the base and the first `m` predicates of each list. -/
theorem conjunction_dealOut (sat : P → Prop) :
    (∀ where_vec ∈ dealOut base lists m, ∀ p ∈ where_vec, sat p) ↔
      (∀ p ∈ base, sat p) ∧ ∀ vec ∈ lists, ∀ p ∈ vec.take m, sat p := by
  unfold dealOut
  by_cases hm : m = 0
  · simp [hm]
  rw [if_neg hm]
  constructor
  · intro h
    have hround : ∀ i < m, ∀ p ∈ base ++ lists.filterMap (·[i]?), sat p := fun i hi =>
      h _ (List.mem_map.mpr ⟨i, List.mem_range.mpr hi, rfl⟩)
    constructor
    · intro p hp
      exact hround 0 (by omega) p (List.mem_append_left _ hp)
    · intro vec hvec p hp
      obtain ⟨i, hi, hget⟩ := mem_take_iff_getElem?.mp hp
      exact hround i hi p (List.mem_append_right _ (List.mem_filterMap.mpr ⟨vec, hvec, hget⟩))
  · rintro ⟨hbase, hlists⟩ where_vec hmem p hp
    obtain ⟨i, hi, rfl⟩ := List.mem_map.mp hmem
    rcases List.mem_append.mp hp with hp | hp
    · exact hbase p hp
    · obtain ⟨vec, hvec, hget⟩ := List.mem_filterMap.mp hp
      exact hlists vec hvec p (mem_take_iff_getElem?.mpr ⟨i, List.mem_range.mp hi, hget⟩)

-- ---------------------------------------------------------------------------
-- The intersection of the sub-queries
-- ---------------------------------------------------------------------------

theorem SortedUnits.filter {ν : Type} [LinearOrder ν] {n : Nat} {rows : WhereResultT ν}
    (h : SortedUnits n rows) (p : QueryResultUnit ν → Bool) : SortedUnits n (rows.filter p) := by
  constructor
  · exact h.1.filter _
  · exact fun x hx => h.2 x (List.mem_filter.mp hx).1

theorem count_selectRows {ν : Type} [LinearOrder ν] (holds : QueryResultUnit ν → P → Bool)
    (rows : WhereResultT ν) (where_vec : WhereIndexInfoVec P) (x : QueryResultUnit ν) :
    (selectRows holds rows where_vec).count x =
      if where_vec.all (holds x) then rows.count x else 0 := by
  unfold selectRows
  split
  next hall => exact List.count_filter hall
  next hnot =>
    rw [List.count_eq_zero, List.mem_filter]
    exact fun h => hnot h.2

/-- The rows all sub-queries answer with are the rows that satisfy the predicates of
all vectors. -/
theorem op_and_selectRows {ν : Type} [LinearOrder ν] {n : Nat} {rows : WhereResultT ν}
    (hrows : SortedUnits n rows) (holds : QueryResultUnit ν → P → Bool)
    {where_vec_list : List (WhereIndexInfoVec P)} (hne : where_vec_list ≠ []) :
    op_and (where_vec_list.map (selectRows holds rows)) =
      some (selectRows holds rows where_vec_list.flatten) := by
  have hsorted : ∀ l ∈ where_vec_list.map (selectRows holds rows), SortedUnits n l := by
    intro l hl
    obtain ⟨where_vec, -, rfl⟩ := List.mem_map.mp hl
    exact hrows.filter _
  obtain ⟨res, hres, hinter⟩ := op_and_isIntersection (by simpa using hne) hsorted
  have hall : IsIntersection n (where_vec_list.map (selectRows holds rows))
      (selectRows holds rows where_vec_list.flatten) := by
    refine ⟨hrows.filter _, fun x l hl => ?_, fun x => ?_⟩
    · obtain ⟨where_vec, hmem, rfl⟩ := List.mem_map.mp hl
      rw [count_selectRows, count_selectRows, List.all_flatten]
      by_cases hx : where_vec_list.all (fun v => v.all (holds x)) = true
      · rw [if_pos hx, if_pos (List.all_eq_true.mp hx where_vec hmem)]
      · rw [if_neg hx]
        exact Nat.zero_le _
    · rw [count_selectRows, List.all_flatten]
      by_cases hx : where_vec_list.all (fun v => v.all (holds x)) = true
      · obtain ⟨where_vec, hmem⟩ := List.exists_mem_of_ne_nil _ hne
        refine ⟨_, List.mem_map.mpr ⟨where_vec, hmem, rfl⟩, ?_⟩
        rw [count_selectRows, if_pos hx, if_pos (List.all_eq_true.mp hx where_vec hmem)]
      · have hfails : ∃ where_vec ∈ where_vec_list, ¬ where_vec.all (holds x) = true := by
          rw [List.all_eq_true] at hx
          push Not at hx
          exact hx
        obtain ⟨where_vec, hmem, hnot⟩ := hfails
        refine ⟨_, List.mem_map.mpr ⟨where_vec, hmem, rfl⟩, ?_⟩
        rw [count_selectRows, if_neg hx, if_neg hnot]
  rw [hres, hinter.unique hall (List.Perm.refl _)]

theorem selectRows_congr {ν : Type} (holds : QueryResultUnit ν → P → Bool)
    (rows : WhereResultT ν) {vec vec' : WhereIndexInfoVec P}
    (h : ∀ sat : P → Prop, (∀ p ∈ vec, sat p) ↔ ∀ p ∈ vec', sat p) :
    selectRows holds rows vec = selectRows holds rows vec' := by
  unfold selectRows
  refine List.filter_congr fun row _ => ?_
  rw [Bool.eq_iff_iff, List.all_eq_true, List.all_eq_true]
  exact h fun p => holds row p = true

-- ---------------------------------------------------------------------------
-- When nothing is lost
-- ---------------------------------------------------------------------------

/-- What `m` rounds leave out is said elsewhere. -/
def CutOffRepeated (base : WhereIndexInfoVec P) (lists : List (WhereIndexInfoVec P)) (m : Nat) :
    Prop :=
  ∀ vec ∈ lists, ∀ p ∈ vec.drop m, p ∈ base ∨ ∃ vec' ∈ lists, p ∈ vec'.take m

theorem splitWithoutLoss_dealOut_iff :
    SplitWithoutLoss base lists (dealOut base lists m) ↔ CutOffRepeated base lists m := by
  constructor
  · intro h vec hvec p hp
    have hkept : ∀ where_vec ∈ dealOut base lists m, ∀ p ∈ where_vec,
        p ∈ base ∨ ∃ vec' ∈ lists, p ∈ vec'.take m :=
      (conjunction_dealOut _).mpr
        ⟨fun p hp => .inl hp, fun vec hvec p hp => .inr ⟨vec, hvec, hp⟩⟩
    exact ((h.conjunction _).mp hkept).2 vec hvec p (List.mem_of_mem_drop hp)
  · intro h
    have hconj : ∀ sat : P → Prop,
        (∀ where_vec ∈ dealOut base lists m, ∀ p ∈ where_vec, sat p) ↔
          (∀ p ∈ base, sat p) ∧ ∀ vec ∈ lists, ∀ p ∈ vec, sat p := by
      intro sat
      rw [conjunction_dealOut]
      refine and_congr_right fun hbase => ⟨fun htake vec hvec p hp => ?_, fun hall vec hvec p hp =>
        hall vec hvec p (List.mem_of_mem_take hp)⟩
      rw [← List.take_append_drop m vec] at hp
      rcases List.mem_append.mp hp with hp | hp
      · exact htake vec hvec p hp
      rcases h vec hvec p hp with hp | ⟨vec', hvec', hp⟩
      · exact hbase p hp
      · exact htake vec' hvec' p hp
    refine ⟨dealOut_ne_nil, fun _ => one_of_each_dealOut, hconj, ?_⟩
    intro ν _ n rows holds hrows
    rw [op_and_selectRows hrows holds dealOut_ne_nil]
    refine congrArg some (selectRows_congr holds rows fun sat => ?_)
    have := hconj sat
    simp only [List.mem_flatten, List.mem_append]
    constructor
    · intro hall p hp
      have hboth := this.mp fun where_vec hmem p hp => hall p ⟨where_vec, hmem, hp⟩
      rcases hp with hp | ⟨vec, hvec, hp⟩
      · exact hboth.1 p hp
      · exact hboth.2 vec hvec p hp
    · rintro hall p ⟨where_vec, hmem, hp⟩
      exact this.mpr ⟨fun p hp => hall p (.inl hp),
        fun vec hvec p hp => hall p (.inr ⟨vec, hvec, hp⟩)⟩ where_vec hmem p hp

/-- As long as the sizes fit 16 bits the counter is their maximum. -/
theorem length_le_statsMaxTags (hfit : ∀ vec ∈ lists, vec.length < 2 ^ 16) :
    ∀ vec ∈ lists, vec.length ≤ statsMaxTags lists := by
  have hfold : ∀ (l : List (WhereIndexInfoVec P)) (acc : Nat), (∀ vec ∈ l, vec.length < 2 ^ 16) →
      acc ≤ l.foldl (fun max_tags where_vec =>
        if max_tags < where_vec.length then where_vec.length % 2 ^ 16 else max_tags) acc ∧
      ∀ vec ∈ l, vec.length ≤ l.foldl (fun max_tags where_vec =>
        if max_tags < where_vec.length then where_vec.length % 2 ^ 16 else max_tags) acc := by
    intro l
    induction l with
    | nil => simp
    | cons vec l ih =>
      intro acc hl
      have hvec := hl vec List.mem_cons_self
      have hmod : vec.length % 2 ^ 16 = vec.length := Nat.mod_eq_of_lt hvec
      obtain ⟨hacc, hrest⟩ :=
        ih (if acc < vec.length then vec.length % 2 ^ 16 else acc)
          fun v hv => hl v (List.mem_cons_of_mem _ hv)
      rw [List.foldl_cons]
      have hstep : acc ≤ (if acc < vec.length then vec.length % 2 ^ 16 else acc) ∧
          vec.length ≤ if acc < vec.length then vec.length % 2 ^ 16 else acc := by
        split <;> omega
      refine ⟨hstep.1.trans hacc, fun v hv => ?_⟩
      rcases List.mem_cons.mp hv with rfl | hv
      · exact hstep.2.trans hacc
      · exact hrest v hv
  exact (hfold lists 0 hfit).2

theorem cutOffRepeated_of_length_le (h : ∀ vec ∈ lists, vec.length ≤ m) :
    CutOffRepeated base lists m := by
  intro vec hvec p hp
  rw [List.drop_eq_nil_of_le (h vec hvec)] at hp
  exact absurd hp List.not_mem_nil

theorem length_le_sessionMaxAttr {labels remote_labels custom remote_custom : WhereIndexInfoVec P}
    (hfit : ∀ vec ∈ [labels, remote_labels, custom, remote_custom], vec.length < 2 ^ 16) :
    ∀ vec ∈ [labels, remote_labels, custom, remote_custom],
      vec.length ≤ sessionMaxAttr labels remote_labels custom remote_custom := by
  simp only [List.forall_mem_cons, List.not_mem_nil, false_implies, implies_true, and_true] at *
  obtain ⟨h1, h2, h3, h4⟩ := hfit
  unfold sessionMaxAttr
  omega

/-- Both functions split without loss if and only if no list reaches 65536
predicates, or what the 16-bit number of vectors cuts off is said elsewhere. -/
theorem split_without_loss_iff (base : WhereIndexInfoVec P) :
    (∀ lists : List (WhereIndexInfoVec P),
      SplitWithoutLoss base lists (populate_stats_where_vec_list base lists) ↔
        (∀ vec ∈ lists, vec.length < 2 ^ 16) ∨ CutOffRepeated base lists (statsMaxTags lists)) ∧
    ∀ labels remote_labels custom remote_custom : WhereIndexInfoVec P,
      SplitWithoutLoss base [labels, remote_labels, custom, remote_custom]
        (populate_session_where_vec_list base labels remote_labels custom remote_custom) ↔
        (∀ vec ∈ [labels, remote_labels, custom, remote_custom], vec.length < 2 ^ 16) ∨
          CutOffRepeated base [labels, remote_labels, custom, remote_custom]
            (sessionMaxAttr labels remote_labels custom remote_custom) := by
  refine ⟨fun lists => ?_, fun labels remote_labels custom remote_custom => ?_⟩
  · rw [populate_stats_eq, splitWithoutLoss_dealOut_iff]
    exact ⟨.inr, fun h => h.elim
      (fun hfit => cutOffRepeated_of_length_le (length_le_statsMaxTags hfit)) id⟩
  · rw [populate_session_eq, splitWithoutLoss_dealOut_iff]
    exact ⟨.inr, fun h => h.elim
      (fun hfit => cutOffRepeated_of_length_le (length_le_sessionMaxAttr hfit)) id⟩

end

/-- The condition for one label. -/
def labelPredicate : WhereIndexInfo := ⟨"labels", .LIKE, "%app=web%".toList⟩

/-- 65536 predicates on one column: the number of vectors wraps to 0. -/
theorem populate_wraps {labels : WhereIndexInfoVec WhereIndexInfo}
    (hlen : labels.length = 65536) :
    populate_stats_where_vec_list [] [labels] = [[]] ∧
      populate_session_where_vec_list [] labels [] [] [] = [[]] := by
  constructor
  · unfold populate_stats_where_vec_list statsMaxTags
    simp [hlen]
  · unfold populate_session_where_vec_list sessionMaxAttr
    simp [hlen]

theorem not_splitWithoutLoss_of_wraps {labels : WhereIndexInfoVec WhereIndexInfo}
    (hlen : labels.length = 65536) :
    populate_stats_where_vec_list [] [labels] = [[]] ∧
    ¬ SplitWithoutLoss [] [labels] (populate_stats_where_vec_list [] [labels]) ∧
    ¬ SplitWithoutLoss [] [labels, [], [], []]
      (populate_session_where_vec_list [] labels [] [] []) := by
  have hlost : ∀ lists : List (WhereIndexInfoVec WhereIndexInfo), (∃ vec ∈ lists, vec ≠ []) →
      ¬ SplitWithoutLoss [] lists [[]] := by
    rintro lists ⟨vec, hvec, hne⟩ h
    obtain ⟨p, hp⟩ := List.exists_mem_of_ne_nil _ hne
    exact ((h.conjunction fun _ => False).mp (by simp)).2 vec hvec p hp
  have hne : labels ≠ [] := by
    rintro rfl
    exact absurd hlen (by simp)
  obtain ⟨hstats, hsession⟩ := populate_wraps hlen
  refine ⟨hstats, ?_, ?_⟩
  · rw [hstats]
    exact hlost _ ⟨labels, List.mem_cons_self, hne⟩
  · rw [hsession]
    exact hlost _ ⟨labels, List.mem_cons_self, hne⟩

/-- The predicates are lost: none of them is kept. -/
theorem not_splitWithoutLoss_65536 :
    populate_stats_where_vec_list [] [List.replicate 65536 labelPredicate] = [[]] ∧
    ¬ SplitWithoutLoss [] [List.replicate 65536 labelPredicate]
      (populate_stats_where_vec_list [] [List.replicate 65536 labelPredicate]) ∧
    ¬ SplitWithoutLoss [] [List.replicate 65536 labelPredicate, [], [], []]
      (populate_session_where_vec_list [] (List.replicate 65536 labelPredicate) [] [] []) :=
  not_splitWithoutLoss_of_wraps List.length_replicate

end TfAnalytics.QueryEngine
