import TfAnalytics.QueryEngine.SetOperation
import TfAnalytics.QueryEngine.Window
import Mathlib.Data.List.Induction

/-!
# Query engine — the sub-queries of a WHERE term

A WHERE term is executed as several database queries (`DbQueryUnit`), which
complete in any order. `WhereQuery::subquery_processed` (where_query.cc) collects
their sorted results in two vectors, under a mutex, and the last to complete
combines them with `op_and` and `op_or` (set_operation.cc) and calls
`where_query_cb_`.

All units of a term have info vectors of one length; then `operator<` is a strict
total order, and the set operations do not depend on the order of their inputs.

* `op_and_perm` / `op_or_perm`: the set operations;
* `collected_step`: what has been collected after some completions;
* `where_set_algebra`: the outcome of a term, for every order of completions.
-/

namespace TfAnalytics.QueryEngine

variable {ν : Type} [LinearOrder ν]

-- ---------------------------------------------------------------------------
-- The order of result units
-- ---------------------------------------------------------------------------

instance QueryResultUnit.instDecidableEq : DecidableEq (QueryResultUnit ν) := fun a b =>
  decidable_of_iff (a.timestamp = b.timestamp ∧ a.info = b.info) (by
    cases a
    cases b
    simp)

theorem infoLess_nil (ys : List ν) : infoLess [] ys = false := rfl

theorem infoLess_cons (x y : ν) (xs ys : List ν) : infoLess (x :: xs) (y :: ys) =
    if x < y then true else if y < x then false else infoLess xs ys := rfl

theorem infoLess_irrefl (xs : List ν) : infoLess xs xs = false := by
  induction xs with
  | nil => rfl
  | cons x xs ih => simp [infoLess_cons, ih]

theorem infoLess_trans : ∀ {xs ys zs : List ν}, xs.length = ys.length → ys.length = zs.length →
    infoLess xs ys = true → infoLess ys zs = true → infoLess xs zs = true
  | [], _, _, _, _, h, _ => by simp [infoLess_nil] at h
  | x :: xs, [], _, hlen, _, _, _ => by simp at hlen
  | x :: xs, y :: ys, [], _, hlen, _, _ => by simp at hlen
  | x :: xs, y :: ys, z :: zs, hxy, hyz, h, h' => by
    rw [infoLess_cons] at h h' ⊢
    rcases lt_trichotomy x y with hlt | rfl | hgt
    · rcases lt_trichotomy y z with hlt' | rfl | hgt'
      · simp [hlt.trans hlt']
      · simp [hlt]
      · simp [hgt'.not_gt, hgt'] at h'
    · rcases lt_trichotomy x z with hlt' | rfl | hgt'
      · simp [hlt']
      · simp only [lt_irrefl, if_false] at h h' ⊢
        exact infoLess_trans (by simpa using hxy) (by simpa using hyz) h h'
      · simp [hgt'.not_gt, hgt'] at h'
    · simp [hgt.not_gt, hgt] at h

theorem infoLess_total : ∀ {xs ys : List ν}, xs.length = ys.length → infoLess xs ys = false →
    infoLess ys xs = false → xs = ys
  | [], [], _, _, _ => rfl
  | [], y :: ys, hlen, _, _ => by simp at hlen
  | x :: xs, [], hlen, _, _ => by simp at hlen
  | x :: xs, y :: ys, hlen, h, h' => by
    rw [infoLess_cons] at h h'
    rcases lt_trichotomy x y with hlt | rfl | hgt
    · simp [hlt] at h
    · simp only [lt_irrefl, if_false] at h h'
      rw [infoLess_total (by simpa using hlen) h h']
    · simp [hgt] at h'

/-- The units with info vectors of length `n`. -/
def InfoLength (n : Nat) (u : QueryResultUnit ν) : Prop := u.info.length = n

theorem less_strictTotalOn (n : Nat) :
    StrictTotalOn (QueryResultUnit.less (ν := ν)) (InfoLength n) := by
  constructor
  · intro a _
    simp [QueryResultUnit.less, infoLess_irrefl]
  · intro a b c ha hb hc hab hbc
    unfold QueryResultUnit.less at hab hbc ⊢
    by_cases h : a.timestamp = b.timestamp
    · by_cases h' : b.timestamp = c.timestamp
      · rw [if_pos h] at hab
        rw [if_pos h'] at hbc
        rw [if_pos (h.trans h')]
        exact infoLess_trans (ha.trans hb.symm) (hb.trans hc.symm) hab hbc
      · rw [if_neg h', ← h] at hbc
        rw [if_neg (h ▸ h')]
        exact hbc
    · rw [if_neg h] at hab
      by_cases h' : b.timestamp = c.timestamp
      · rw [if_neg (h' ▸ h), ← h']
        exact hab
      · rw [if_neg h'] at hbc
        simp only [decide_eq_true_eq] at hab hbc
        rw [if_neg (by omega)]
        simp only [decide_eq_true_eq]
        omega
  · intro a b ha hb hab hba
    obtain ⟨ta, ia⟩ := a
    obtain ⟨tb, ib⟩ := b
    unfold QueryResultUnit.less at hab hba
    by_cases h : ta = tb
    · subst h
      rw [if_pos rfl] at hab hba
      have hinfo : ia = ib := infoLess_total (ha.trans hb.symm) hab hba
      rw [hinfo]
    · rw [if_neg h] at hab
      rw [if_neg (Ne.symm h)] at hba
      simp only [decide_eq_false_iff_not] at hab hba
      omega

/-- A sorted result vector of units with info vectors of length `n`. -/
abbrev SortedUnits (n : Nat) (l : WhereResultT ν) : Prop :=
  SortedIn QueryResultUnit.less (InfoLength n) l

theorem equivalent_iff {n : Nat} {a b : QueryResultUnit ν} (ha : InfoLength n a)
    (hb : InfoLength n b) : Equivalent QueryResultUnit.less a b ↔ a = b := by
  refine ⟨fun h => (less_strictTotalOn n).total a b ha hb h.1 h.2, ?_⟩
  rintro rfl
  exact ⟨(less_strictTotalOn n).irrefl a ha, (less_strictTotalOn n).irrefl a ha⟩

/-- In a sorted vector, to have an equivalent unit is to have the unit. -/
theorem SortedUnits.exists_equivalent_iff {n : Nat} {l : WhereResultT ν} (h : SortedUnits n l)
    {x : QueryResultUnit ν} (hx : InfoLength n x) :
    (∃ y ∈ l, Equivalent QueryResultUnit.less x y) ↔ x ∈ l := by
  constructor
  · rintro ⟨y, hy, hequiv⟩
    rwa [(equivalent_iff hx (h.all y hy)).mp hequiv]
  · intro hmem
    exact ⟨x, hmem, (equivalent_iff hx hx).mpr rfl⟩

-- ---------------------------------------------------------------------------
-- The set operations on sorted vectors
-- ---------------------------------------------------------------------------

/-- `res` has every unit as often as the input that has it least often. -/
structure IsIntersection (n : Nat) (inp : List (WhereResultT ν)) (res : WhereResultT ν) :
    Prop where
  sorted : SortedUnits n res
  le : ∀ x, ∀ l ∈ inp, res.count x ≤ l.count x
  attained : ∀ x, ∃ l ∈ inp, res.count x = l.count x

/-- `res` has every unit as often as the input that has it most often. -/
structure IsMaxUnion (n : Nat) (inp : List (WhereResultT ν)) (res : WhereResultT ν) : Prop where
  sorted : SortedUnits n res
  le : ∀ x, ∀ l ∈ inp, l.count x ≤ res.count x
  attained : ∀ x, ∃ l ∈ inp, res.count x = l.count x

/-- A fold of an operation that takes, for every unit, one of two numbers, which
is at most (`R` is `≤`) or at least (`≥`) the other. -/
theorem foldl_extremal {n : Nat} {R : Nat → Nat → Prop} [Std.Refl R] [IsTrans Nat R]
    {op : WhereResultT ν → WhereResultT ν → WhereResultT ν} {f : Nat → Nat → Nat}
    (hsorted : ∀ {a b}, SortedUnits n a → SortedUnits n b → SortedUnits n (op a b))
    (hcount : ∀ {a b}, SortedUnits n a → SortedUnits n b →
      ∀ x, (op a b).count x = f (a.count x) (b.count x))
    (hleft : ∀ p q, R (f p q) p) (hright : ∀ p q, R (f p q) q)
    (hchoice : ∀ p q, f p q = p ∨ f p q = q) (inp : List (WhereResultT ν)) :
    ∀ res : WhereResultT ν, SortedUnits n res → (∀ l ∈ inp, SortedUnits n l) →
      SortedUnits n (inp.foldl op res) ∧
      (∀ x, ∀ l ∈ res :: inp, R ((inp.foldl op res).count x) (l.count x)) ∧
      ∀ x, ∃ l ∈ res :: inp, (inp.foldl op res).count x = l.count x := by
  induction inp with
  | nil =>
    intro res hres _
    refine ⟨hres, fun x l hl => ?_, fun x => ⟨res, List.mem_cons_self, rfl⟩⟩
    rw [List.mem_singleton.mp hl]
    exact refl_of R _
  | cons l inp ih =>
    intro res hres hinp
    have hl : SortedUnits n l := hinp l List.mem_cons_self
    obtain ⟨hall, hrel, hattained⟩ := ih (op res l) (hsorted hres hl)
      fun l' hl' => hinp l' (List.mem_cons_of_mem l hl')
    refine ⟨hall, fun x l' hl' => ?_, fun x => ?_⟩
    · have hstep := hrel x _ List.mem_cons_self
      rw [hcount hres hl] at hstep
      rw [List.foldl_cons]
      rcases List.mem_cons.mp hl' with rfl | hl'
      · exact trans_of R hstep (hleft _ _)
      · rcases List.mem_cons.mp hl' with rfl | hl'
        · exact trans_of R hstep (hright _ _)
        · exact hrel x l' (List.mem_cons_of_mem _ hl')
    · obtain ⟨l', hl', hx⟩ := hattained x
      rw [List.foldl_cons, hx]
      rcases List.mem_cons.mp hl' with rfl | hl'
      · rw [hcount hres hl]
        rcases hchoice (res.count x) (l.count x) with hf | hf
        · exact ⟨res, List.mem_cons_self, hf⟩
        · exact ⟨l, by simp, hf⟩
      · exact ⟨l', by simp [hl'], rfl⟩

theorem isIntersection_foldl {n : Nat} (inp : List (WhereResultT ν)) (res : WhereResultT ν)
    (hres : SortedUnits n res) (hinp : ∀ l ∈ inp, SortedUnits n l) :
    IsIntersection n (res :: inp) (inp.foldl (setIntersection QueryResultUnit.less) res) := by
  obtain ⟨hsorted, hle, hattained⟩ := foldl_extremal (R := (· ≤ ·)) (f := min)
    (fun ha _ => sortedIn_setIntersection ha)
    (fun ha hb => count_setIntersection (less_strictTotalOn n) ha hb)
    min_le_left min_le_right min_choice inp res hres hinp
  exact ⟨hsorted, hle, hattained⟩

theorem isMaxUnion_foldl {n : Nat} (inp : List (WhereResultT ν)) (res : WhereResultT ν)
    (hres : SortedUnits n res) (hinp : ∀ l ∈ inp, SortedUnits n l) :
    IsMaxUnion n (res :: inp) (inp.foldl (setUnion QueryResultUnit.less) res) := by
  obtain ⟨hsorted, hle, hattained⟩ := foldl_extremal (R := (· ≥ ·)) (f := max)
    (fun ha hb => sortedIn_setUnion (less_strictTotalOn n) ha hb)
    (fun ha hb => count_setUnion (less_strictTotalOn n) ha hb)
    le_max_left le_max_right max_choice inp res hres hinp
  exact ⟨hsorted, hle, hattained⟩

section

variable {n : Nat} {inp inp' : List (WhereResultT ν)} {res res' : WhereResultT ν}

theorem op_and_isIntersection (hne : inp ≠ []) (hinp : ∀ l ∈ inp, SortedUnits n l) :
    ∃ res, op_and inp = some res ∧ IsIntersection n inp res := by
  cases inp with
  | nil => exact absurd rfl hne
  | cons l inp =>
    exact ⟨_, rfl, isIntersection_foldl inp l (hinp l List.mem_cons_self)
      fun l' hl' => hinp l' (List.mem_cons_of_mem l hl')⟩

theorem op_or_isMaxUnion (hne : inp ≠ []) (hinp : ∀ l ∈ inp, SortedUnits n l) :
    ∃ res, op_or inp = some res ∧ IsMaxUnion n inp res := by
  cases inp with
  | nil => exact absurd rfl hne
  | cons l inp =>
    exact ⟨_, rfl, isMaxUnion_foldl inp l (hinp l List.mem_cons_self)
      fun l' hl' => hinp l' (List.mem_cons_of_mem l hl')⟩

theorem IsIntersection.unique (h : IsIntersection n inp res) (h' : IsIntersection n inp' res')
    (hperm : inp'.Perm inp) : res' = res := by
  refine h'.sorted.ext (less_strictTotalOn n) h.sorted fun x => le_antisymm ?_ ?_
  · obtain ⟨l, hl, hx⟩ := h.attained x
    exact hx ▸ h'.le x l (hperm.mem_iff.mpr hl)
  · obtain ⟨l, hl, hx⟩ := h'.attained x
    exact hx ▸ h.le x l (hperm.mem_iff.mp hl)

theorem IsMaxUnion.unique (h : IsMaxUnion n inp res) (h' : IsMaxUnion n inp' res')
    (hperm : inp'.Perm inp) : res' = res := by
  refine h'.sorted.ext (less_strictTotalOn n) h.sorted fun x => le_antisymm ?_ ?_
  · obtain ⟨l, hl, hx⟩ := h'.attained x
    exact hx ▸ h.le x l (hperm.mem_iff.mp hl)
  · obtain ⟨l, hl, hx⟩ := h.attained x
    exact hx ▸ h'.le x l (hperm.mem_iff.mpr hl)

theorem IsIntersection.mem_iff (h : IsIntersection n inp res) (x : QueryResultUnit ν) :
    x ∈ res ↔ ∀ l ∈ inp, x ∈ l := by
  constructor
  · intro hx l hl
    exact List.count_pos_iff.mp ((List.count_pos_iff.mpr hx).trans_le (h.le x l hl))
  · intro hall
    obtain ⟨l, hl, hcount⟩ := h.attained x
    exact List.count_pos_iff.mp (hcount ▸ List.count_pos_iff.mpr (hall l hl))

theorem IsMaxUnion.mem_iff (h : IsMaxUnion n inp res) (x : QueryResultUnit ν) :
    x ∈ res ↔ ∃ l ∈ inp, x ∈ l := by
  constructor
  · intro hx
    obtain ⟨l, hl, hcount⟩ := h.attained x
    exact ⟨l, hl, List.count_pos_iff.mp (hcount ▸ List.count_pos_iff.mpr hx)⟩
  · rintro ⟨l, hl, hx⟩
    exact List.count_pos_iff.mp ((List.count_pos_iff.mpr hx).trans_le (h.le x l hl))

theorem op_and_perm (hinp : ∀ l ∈ inp, SortedUnits n l) (hperm : inp'.Perm inp) :
    op_and inp' = op_and inp := by
  by_cases hne : inp = []
  · rw [hne] at hperm ⊢
    rw [hperm.eq_nil]
  · have hne' : inp' ≠ [] := fun h => hne (h ▸ hperm).symm.eq_nil
    obtain ⟨res, hres, h⟩ := op_and_isIntersection hne hinp
    obtain ⟨res', hres', h'⟩ := op_and_isIntersection hne' fun l hl => hinp l (hperm.mem_iff.mp hl)
    rw [hres, hres', h.unique h' hperm]

theorem op_or_perm (hinp : ∀ l ∈ inp, SortedUnits n l) (hperm : inp'.Perm inp) :
    op_or inp' = op_or inp := by
  by_cases hne : inp = []
  · rw [hne] at hperm ⊢
    rw [hperm.eq_nil]
  · have hne' : inp' ≠ [] := fun h => hne (h ▸ hperm).symm.eq_nil
    obtain ⟨res, hres, h⟩ := op_or_isMaxUnion hne hinp
    obtain ⟨res', hres', h'⟩ := op_or_isMaxUnion hne' fun l hl => hinp l (hperm.mem_iff.mp hl)
    rw [hres, hres', h.unique h' hperm]

end

-- ---------------------------------------------------------------------------
-- The sub-queries of a term
-- ---------------------------------------------------------------------------

def OBJECT_TABLE : String := "ObjectTable"
def COLLECTOR_GLOBAL_TABLE : String := "MessageTablev2"
def SESSION_TABLE : String := "SessionTable"
def STATS_TABLE : String := "StatsTableV4"
def MSG_TABLE_MAX_OBJECTS_PER_MSG : Nat := 6

/-- The error code that `QE_QUERY_FETCH_ERROR` notes: EIO. -/
def QE_QUERY_FETCH_ERROR : Nat := 5

/-- The stat index tables that are read while old data exists. -/
inductive StatIndexTable where
  | STATS_TABLE_BY_STR_TAG
  | STATS_TABLE_BY_U64_TAG
  | STATS_TABLE_BY_DBL_TAG
  | STATS_TABLE_BY_STR_STR_TAG
  | STATS_TABLE_BY_STR_U64_TAG
  | STATS_TABLE_BY_U64_STR_TAG
  | STATS_TABLE_BY_U64_U64_TAG

def StatIndexTable.cfname : StatIndexTable → String
  | .STATS_TABLE_BY_STR_TAG => "StatsTableByStrTagV3"
  | .STATS_TABLE_BY_U64_TAG => "StatsTableByU64TagV3"
  | .STATS_TABLE_BY_DBL_TAG => "StatsTableByDblTagV3"
  | .STATS_TABLE_BY_STR_STR_TAG => "StatsTableByStrStrTagV3"
  | .STATS_TABLE_BY_STR_U64_TAG => "StatsTableByStrU64TagV3"
  | .STATS_TABLE_BY_U64_STR_TAG => "StatsTableByU64StrTagV3"
  | .STATS_TABLE_BY_U64_U64_TAG => "StatsTableByU64U64TagV3"

/-- A WHERE term, as far as its sub-queries depend on it: "where *", or the AND
conditions of one OR term, with the stat index tables they read (`StatTermProcess`)
and the largest number of them on one map-valued column (`max_tags` or
`max_random_attr`). -/
inductive WhereTerm where
  | all
  | conditions (statTerms : List StatIndexTable) (max_tags : Fin (2 ^ 16))

/-- The length of `where_vec_list`. -/
def numWhereVecs (max_tags : Nat) : Nat := if max_tags = 0 then 1 else max_tags

/-- The column families of the sub-queries that the constructor creates. A stat
table has none for "where *". -/
def sub_queries (table : String) : WhereTerm → List String
  | .all =>
    if is_message_table_query table then [COLLECTOR_GLOBAL_TABLE]
    else if is_flow_query table then [SESSION_TABLE, SESSION_TABLE]
    else if is_session_query table then [SESSION_TABLE]
    else if is_object_table_query table then
      List.replicate MSG_TABLE_MAX_OBJECTS_PER_MSG COLLECTOR_GLOBAL_TABLE
    else [""]
  | .conditions statTerms max_tags =>
    (if is_message_table_query table then [COLLECTOR_GLOBAL_TABLE] else []) ++
    (if is_object_table_query table then
      List.replicate MSG_TABLE_MAX_OBJECTS_PER_MSG COLLECTOR_GLOBAL_TABLE else []) ++
    (if is_stat_table_query table then
      statTerms.map StatIndexTable.cfname ++ List.replicate (numWhereVecs max_tags) STATS_TABLE
      else []) ++
    (if is_session_query table then List.replicate (numWhereVecs max_tags) SESSION_TABLE
      else if is_flow_query table then [SESSION_TABLE, SESSION_TABLE] else [])

/-- A `DbQueryUnit` when it completes: the rows it got, and whether it failed. -/
structure SubQuery (ν : Type) where
  cfname : String
  rows : List (QueryResultUnit ν)
  failed : Bool

-- ---------------------------------------------------------------------------
-- subquery_processed
-- ---------------------------------------------------------------------------

def insertSorted (x : QueryResultUnit ν) : WhereResultT ν → WhereResultT ν
  | [] => [x]
  | y :: ys => if y.less x then y :: insertSorted x ys else x :: y :: ys

/-- `std::sort`. -/
def sortUnits (l : List (QueryResultUnit ν)) : WhereResultT ν := l.foldr insertSorted []

/-- `WPCompleteCb` sorts the result. -/
def SubQuery.query_result (u : SubQuery ν) : WhereResultT ν := sortUnits u.rows

structure WhereState (ν : Type) where
  inp : List (WhereResultT ν)
  inp_new_data : List (WhereResultT ν)
  /-- `qperf_.error` -/
  error : Nat
  where_result_ : WhereResultT ν
  /-- the calls of `where_query_cb_`, with the error and the result passed on -/
  callbacks : List (Nat × WhereResultT ν)

def WhereState.initial : WhereState ν := ⟨[], [], 0, [], []⟩

/-- The set operations of the last completion; `none` when `op_and` or `op_or` is
given no vector. -/
def setOperations (table : String) (inp inp_new_data : List (WhereResultT ν)) :
    Option (WhereResultT ν) :=
  if is_message_table_query table || is_object_table_query table || is_flow_query table then
    op_or inp
  else if is_stat_table_query table then do
    let inp_final ← if inp.isEmpty then some [] else (op_and inp).map fun old => [old]
    let where_result_new ← op_and inp_new_data
    op_or (inp_final ++ [where_result_new])
  else op_and inp

/-- What is done under the mutex: the result is collected and a failure noted. -/
def collect (s : WhereState ν) (u : SubQuery ν) : WhereState ν :=
  let s :=
    if u.cfname = OBJECT_TABLE then { s with inp := u.query_result :: s.inp }
    else if u.cfname = STATS_TABLE then
      { s with inp_new_data := s.inp_new_data ++ [u.query_result] }
    else { s with inp := s.inp ++ [u.query_result] }
  if u.failed then { s with error := QE_QUERY_FETCH_ERROR } else s

def subquery_processed (table : String) (size : Nat) (s : WhereState ν) (u : SubQuery ν) :
    Option (WhereState ν) :=
  let s := collect s u
  if size ≠ s.inp.length + s.inp_new_data.length then some s
  else if s.error ≠ 0 then
    some { s with callbacks := s.callbacks ++ [(s.error, s.where_result_)] }
  else do
    let where_result_ ← setOperations table s.inp s.inp_new_data
    some { s with where_result_, callbacks := s.callbacks ++ [(s.error, where_result_)] }

/-- The sub-queries complete one after the other. -/
def complete (table : String) (size : Nat) (order : List (SubQuery ν)) : Option (WhereState ν) :=
  order.foldlM (subquery_processed table size) .initial

-- ---------------------------------------------------------------------------
-- Sorting
-- ---------------------------------------------------------------------------

theorem insertSorted_perm (x : QueryResultUnit ν) (l : WhereResultT ν) :
    (insertSorted x l).Perm (x :: l) := by
  induction l with
  | nil => exact List.Perm.refl _
  | cons y ys ih =>
    rw [insertSorted]
    split
    · exact (ih.cons y).trans (List.Perm.swap x y ys)
    · exact List.Perm.refl _

theorem sortedUnits_insertSorted {n : Nat} {x : QueryResultUnit ν} (hx : InfoLength n x)
    {l : WhereResultT ν} (h : SortedUnits n l) : SortedUnits n (insertSorted x l) := by
  have hord := less_strictTotalOn (ν := ν) n
  induction l with
  | nil => exact h.cons hx fun _ hb => absurd hb List.not_mem_nil
  | cons y ys ih =>
    have hy : InfoLength n y := h.all y List.mem_cons_self
    rw [insertSorted]
    split
    · rename_i hyx
      refine (ih h.tail).cons hy fun b hb => ?_
      rcases List.mem_cons.mp ((insertSorted_perm x ys).mem_iff.mp hb) with rfl | hb
      · by_contra hlt
        have hself := hord.trans _ _ _ hy hx hy hyx (by simpa using hlt)
        rw [hord.irrefl y hy] at hself
        cases hself
      · exact (List.pairwise_cons.mp h.sorted).1 b hb
    · rename_i hyx
      refine h.cons hx fun b hb => ?_
      rcases List.mem_cons.mp hb with rfl | hb'
      · simpa using hyx
      · by_contra hlt
        have hbP : InfoLength n b := h.all b hb
        have hyb : QueryResultUnit.less b y = false := (List.pairwise_cons.mp h.sorted).1 b hb'
        -- `b` is not before `y` and `y` is not before `x`
        rcases hxy : QueryResultUnit.less x y with _ | _
        · obtain rfl := hord.total x y hx hy hxy (by simpa using hyx)
          simp [hyb] at hlt
        · have := hord.trans _ _ _ hbP hx hy (by simpa using hlt) hxy
          rw [hyb] at this
          cases this

theorem sortUnits_sorted {n : Nat} {l : List (QueryResultUnit ν)}
    (h : ∀ x ∈ l, InfoLength n x) : SortedUnits n (sortUnits l) := by
  induction l with
  | nil => exact ⟨List.Pairwise.nil, fun _ hx => absurd hx List.not_mem_nil⟩
  | cons x l ih =>
    exact sortedUnits_insertSorted (h x List.mem_cons_self)
      (ih fun y hy => h y (List.mem_cons_of_mem x hy))

-- ---------------------------------------------------------------------------
-- Completions
-- ---------------------------------------------------------------------------

section Completions

/-- The results that go to `inp`. -/
def olderResults (units : List (SubQuery ν)) : List (WhereResultT ν) :=
  (units.filter fun u => u.cfname ≠ STATS_TABLE).map SubQuery.query_result

/-- The results that go to `inp_new_data`. -/
def newResults (units : List (SubQuery ν)) : List (WhereResultT ν) :=
  (units.filter fun u => u.cfname = STATS_TABLE).map SubQuery.query_result

/-- The error after some completions. -/
def errorOf (units : List (SubQuery ν)) : Nat :=
  if units.any SubQuery.failed then QE_QUERY_FETCH_ERROR else 0

/-- What has been collected when `done` have completed and others have not. -/
structure Collected (done : List (SubQuery ν)) (s : WhereState ν) : Prop where
  inp : s.inp.Perm (olderResults done)
  inp_new_data : s.inp_new_data = newResults done
  error : s.error = errorOf done
  where_result_ : s.where_result_ = []
  callbacks : s.callbacks = []

theorem collected_initial : Collected (ν := ν) [] .initial :=
  ⟨List.Perm.refl _, rfl, rfl, rfl, rfl⟩

omit [LinearOrder ν] in
theorem errorOf_append (done : List (SubQuery ν)) (u : SubQuery ν) :
    errorOf (done ++ [u]) = if u.failed then QE_QUERY_FETCH_ERROR else errorOf done := by
  unfold errorOf
  rw [List.any_append]
  by_cases hfailed : u.failed
  · simp [hfailed]
  · simp [hfailed]

theorem collect_inp (s : WhereState ν) (u : SubQuery ν) : (collect s u).inp =
    if u.cfname = OBJECT_TABLE then u.query_result :: s.inp
    else if u.cfname = STATS_TABLE then s.inp else s.inp ++ [u.query_result] := by
  unfold collect
  split_ifs <;> rfl

theorem collect_inp_new_data (s : WhereState ν) (u : SubQuery ν) : (collect s u).inp_new_data =
    if u.cfname = STATS_TABLE then s.inp_new_data ++ [u.query_result] else s.inp_new_data := by
  unfold collect
  by_cases hobject : u.cfname = OBJECT_TABLE
  · have hne : u.cfname ≠ STATS_TABLE := by
      rw [hobject]
      decide
    rw [if_pos hobject, if_neg hne]
    split_ifs <;> rfl
  · rw [if_neg hobject]
    split_ifs <;> rfl

theorem collect_error (s : WhereState ν) (u : SubQuery ν) :
    (collect s u).error = if u.failed then QE_QUERY_FETCH_ERROR else s.error := by
  unfold collect
  split_ifs <;> rfl

theorem collect_unreported (s : WhereState ν) (u : SubQuery ν) :
    (collect s u).where_result_ = s.where_result_ ∧ (collect s u).callbacks = s.callbacks := by
  unfold collect
  split_ifs <;> exact ⟨rfl, rfl⟩

theorem collected_step {done : List (SubQuery ν)} {s : WhereState ν} (h : Collected done s)
    (u : SubQuery ν) : Collected (done ++ [u]) (collect s u) := by
  obtain ⟨hresult, hcallbacks⟩ := collect_unreported s u
  refine ⟨?_, ?_, ?_, hresult.trans h.where_result_, hcallbacks.trans h.callbacks⟩
  · rw [collect_inp, olderResults, List.filter_append, List.map_append]
    split_ifs with hobject hstats
    · have hne : u.cfname ≠ STATS_TABLE := by
        rw [hobject]
        decide
      rw [List.filter_cons_of_pos (by simpa using hne)]
      exact (h.inp.cons _).trans (List.perm_append_singleton _ _).symm
    · rw [List.filter_cons_of_neg (by simpa using hstats), List.filter_nil, List.map_nil, List.append_nil]
      exact h.inp
    · rw [List.filter_cons_of_pos (by simpa using hstats)]
      exact h.inp.append_right _
  · rw [collect_inp_new_data, newResults, List.filter_append, List.map_append, h.inp_new_data]
    split_ifs with hstats
    · rw [List.filter_cons_of_pos (by simpa using hstats)]
      rfl
    · rw [List.filter_cons_of_neg (by simpa using hstats), List.filter_nil, List.map_nil, List.append_nil]
      rfl
  · rw [collect_error, errorOf_append, h.error]

theorem Collected.length {done : List (SubQuery ν)} {s : WhereState ν} (h : Collected done s) :
    s.inp.length + s.inp_new_data.length = done.length := by
  rw [h.inp.length_eq, h.inp_new_data, olderResults, newResults, List.length_map, List.length_map]
  rw [← List.countP_eq_length_filter, ← List.countP_eq_length_filter, add_comm,
    List.length_eq_countP_add_countP (fun u : SubQuery ν => decide (u.cfname = STATS_TABLE))]
  simp

/-- Before the last completion nothing is reported. -/
theorem complete_some (table : String) {size : Nat} (order : List (SubQuery ν))
    (hsize : order.length < size) :
    ∃ s, complete table size order = some s ∧ Collected order s := by
  induction order using List.reverseRecOn with
  | nil => exact ⟨_, rfl, collected_initial⟩
  | append_singleton done u ih =>
    rw [List.length_append, List.length_singleton] at hsize
    obtain ⟨s, hs, hcollected⟩ := ih (by omega)
    have hstep := collected_step hcollected u
    refine ⟨collect s u, ?_, hstep⟩
    unfold complete at hs ⊢
    rw [List.foldlM_append, hs, Option.bind_eq_bind, Option.bind_some, List.foldlM_cons,
      subquery_processed]
    have hne : size ≠ (collect s u).inp.length + (collect s u).inp_new_data.length := by
      rw [hstep.length, List.length_append, List.length_singleton]
      omega
    simp only [if_pos hne]
    rfl

/-- The last completion calls back with the error, or with the combined result. -/
theorem complete_last (table : String) {order : List (SubQuery ν)} (hne : order ≠ []) :
    ∃ s, Collected order s ∧ complete table order.length order =
      if errorOf order ≠ 0 then some { s with callbacks := [(errorOf order, [])] }
      else (setOperations table s.inp s.inp_new_data).map fun result =>
        { s with where_result_ := result, callbacks := [(0, result)] } := by
  obtain ⟨done, u, rfl⟩ := List.eq_nil_or_concat order |>.resolve_left hne
  rw [List.concat_eq_append]
  have hlt : done.length < (done ++ [u]).length := by simp
  obtain ⟨s, hs, hcollected⟩ := complete_some table done hlt
  have hstep := collected_step hcollected u
  refine ⟨collect s u, hstep, ?_⟩
  unfold complete at hs ⊢
  rw [List.foldlM_append, hs, Option.bind_eq_bind, Option.bind_some, List.foldlM_cons,
    subquery_processed]
  simp only [hstep.length, ne_eq, not_true, if_false, hstep.error, hstep.where_result_,
    hstep.callbacks, List.nil_append]
  by_cases herror : errorOf (done ++ [u]) = 0
  · simp only [herror, not_true, if_false]
    cases setOperations table (collect s u).inp (collect s u).inp_new_data <;> rfl
  · simp only [herror, not_false_eq_true, if_true]
    rfl

end Completions

-- ---------------------------------------------------------------------------
-- The outcome of a term
-- ---------------------------------------------------------------------------

section Outcome

variable {n : Nat} {table : String} {term : WhereTerm}

/-- The operation of the last completion does not depend on the order in which
the vectors were collected. -/
theorem setOperations_perm {inp inp' inp_new_data inp_new_data' : List (WhereResultT ν)}
    (hinp : ∀ l ∈ inp, SortedUnits n l) (hnew : ∀ l ∈ inp_new_data, SortedUnits n l)
    (hperm : inp'.Perm inp) (hperm' : inp_new_data'.Perm inp_new_data) :
    setOperations table inp' inp_new_data' = setOperations table inp inp_new_data := by
  unfold setOperations
  rw [op_or_perm hinp hperm, op_and_perm hinp hperm, op_and_perm hnew hperm', hperm.isEmpty_eq]

theorem table_cases (htable : table ≠ OBJECT_VALUE_TABLE) :
    (is_message_table_query table || is_object_table_query table || is_flow_query table) = true ∨
      is_stat_table_query table = true ∨ is_session_query table = true := by
  unfold is_object_table_query is_message_table_query is_flow_query
  by_cases hstat : is_stat_table_query table
  · exact Or.inr (Or.inl hstat)
  · by_cases hsession : is_session_query table
    · exact Or.inr (Or.inr hsession)
    · refine Or.inl ?_
      simp only [hstat, hsession, Bool.or_eq_true, Bool.and_eq_true, beq_iff_eq, bne_iff_ne,
        Bool.not_eq_true', ne_eq]
      tauto

theorem numWhereVecs_ne_zero (max_tags : Nat) : numWhereVecs max_tags ≠ 0 := by
  unfold numWhereVecs
  split <;> omega

/-- A table other than a stat table has a sub-query whose result goes to `inp`. -/
theorem exists_older (term : WhereTerm) (htable : table ≠ OBJECT_VALUE_TABLE)
    (hstat : is_stat_table_query table = false) :
    ∃ cf ∈ sub_queries table term, cf ≠ STATS_TABLE := by
  have hcollector : COLLECTOR_GLOBAL_TABLE ≠ STATS_TABLE := by decide
  have hsession : SESSION_TABLE ≠ STATS_TABLE := by decide
  have hobjects : MSG_TABLE_MAX_OBJECTS_PER_MSG ≠ 0 := by decide
  have hcases := table_cases htable
  simp only [hstat, Bool.or_eq_true, Bool.false_eq_true, false_or, or_assoc] at hcases
  by_cases hmessage : is_message_table_query table
  · refine ⟨COLLECTOR_GLOBAL_TABLE, ?_, hcollector⟩
    cases term <;> simp [sub_queries, hmessage]
  · by_cases hflow : is_flow_query table
    · refine ⟨SESSION_TABLE, ?_, hsession⟩
      cases term with
      | all => simp [sub_queries, hmessage, hflow]
      | conditions statTerms max_tags =>
        by_cases hs : is_session_query table <;>
          simp [sub_queries, hflow, hs, List.mem_replicate, numWhereVecs_ne_zero]
    · by_cases hs : is_session_query table
      · refine ⟨SESSION_TABLE, ?_, hsession⟩
        cases term <;>
          simp [sub_queries, hmessage, hflow, hs, List.mem_replicate, numWhereVecs_ne_zero]
      · have hobject : is_object_table_query table = true := by
          simpa [hmessage, hflow, hs] using hcases
        refine ⟨COLLECTOR_GLOBAL_TABLE, ?_, hcollector⟩
        cases term <;>
          simp [sub_queries, hmessage, hflow, hs, hobject, List.mem_replicate, hobjects]

/-- A term of a stat table with conditions has one whose result goes to `inp_new_data`. -/
theorem mem_sub_queries_stat (hstat : is_stat_table_query table = true)
    (statTerms : List StatIndexTable) (max_tags : Fin (2 ^ 16)) :
    STATS_TABLE ∈ sub_queries table (.conditions statTerms max_tags) := by
  simp [sub_queries, hstat, List.mem_replicate, numWhereVecs_ne_zero]

/-- A stat table is of no other kind. -/
theorem stat_table_kinds (hstat : is_stat_table_query table = true) :
    is_message_table_query table = false ∧ is_flow_query table = false ∧
      is_session_query table = false ∧ is_object_table_query table = false := by
  have hne : ∀ name : String, is_stat_table_query name = false → (table == name) = false := by
    intro name hname
    rw [beq_eq_false_iff_ne]
    rintro rfl
    rw [hname] at hstat
    cases hstat
  refine ⟨hne _ (by decide), ?_, ?_, by simp [is_object_table_query, hstat]⟩
  · rw [is_flow_query, hne _ (by decide), hne _ (by decide), Bool.or_self]
  · rw [is_session_query, hne _ (by decide), hne _ (by decide), Bool.or_self]

/-- "where *" on a stat table has one sub-query, without a column family. -/
theorem sub_queries_all_stat (hstat : is_stat_table_query table = true) :
    sub_queries table .all = [""] := by
  obtain ⟨hmessage, hflow, hsession, hobject⟩ := stat_table_kinds hstat
  simp [sub_queries, hmessage, hflow, hsession, hobject]

/-- Unless a sub-query failed, the last completion has the vectors that its set
operations need. -/
theorem setOperations_some (htable : table ≠ OBJECT_VALUE_TABLE) {units : List (SubQuery ν)}
    (hunits : units.map SubQuery.cfname = sub_queries table term)
    (hnone : ∀ u ∈ units, u.cfname = "" → u.failed = true)
    (hok : ∀ u ∈ units, u.failed = false) :
    ∃ result, setOperations table (olderResults units) (newResults units) = some result := by
  have holder : is_stat_table_query table = false → olderResults units ≠ [] := by
    intro hstat
    obtain ⟨cf, hcf, hne⟩ := exists_older term htable hstat
    rw [← hunits] at hcf
    obtain ⟨u, hu, rfl⟩ := List.mem_map.mp hcf
    exact List.ne_nil_of_mem (List.mem_map_of_mem (List.mem_filter.mpr ⟨hu, by simpa using hne⟩))
  have hnew : is_stat_table_query table = true → newResults units ≠ [] := by
    intro hstat
    cases term with
    | all =>
      rw [sub_queries_all_stat hstat] at hunits
      obtain ⟨u, hu, hcf⟩ := List.mem_map.mp (hunits ▸ List.mem_singleton_self "")
      have hfailed := hnone u hu hcf
      rw [hok u hu] at hfailed
      cases hfailed
    | conditions statTerms max_tags =>
      obtain ⟨u, hu, hcf⟩ :=
        List.mem_map.mp (hunits ▸ mem_sub_queries_stat hstat statTerms max_tags)
      exact List.ne_nil_of_mem (List.mem_map_of_mem (List.mem_filter.mpr ⟨hu, by simpa using hcf⟩))
  unfold setOperations
  rcases hstat : is_stat_table_query table with _ | _
  · split
    · exact op_or_eq_some (holder hstat)
    · exact op_and_eq_some (holder hstat)
  · obtain ⟨hmessage, hflow, -, hobject⟩ := stat_table_kinds hstat
    obtain ⟨new, hres⟩ := op_and_eq_some (hnew hstat)
    simp only [hmessage, hflow, hobject, Bool.or_self, Bool.false_eq_true, if_false, if_true, hres,
      Option.bind_eq_bind, Option.bind_some]
    by_cases hempty : olderResults units = []
    · rw [hempty]
      exact op_or_eq_some (List.cons_ne_nil new [])
    · obtain ⟨old, hold⟩ := op_and_eq_some hempty
      rw [if_neg (by simpa using hempty), hold]
      exact op_or_eq_some (List.cons_ne_nil old [new])

/-- What a term does when its sub-queries complete in this order. -/
structure Reports (table : String) (order : List (SubQuery ν)) (error : Nat)
    (result : WhereResultT ν) : Prop where
  /-- one callback after the last completion -/
  last : ∃ s, complete table order.length order = some s ∧ s.callbacks = [(error, result)] ∧
    s.where_result_ = result
  /-- and none before -/
  before : ∀ done rest, order = done ++ rest → rest ≠ [] →
    ∃ s, complete table order.length done = some s ∧ s.callbacks = []

omit [LinearOrder ν] in
theorem errorOf_ne_zero_iff (units : List (SubQuery ν)) :
    errorOf units ≠ 0 ↔ ∃ u ∈ units, u.failed = true := by
  unfold errorOf QE_QUERY_FETCH_ERROR
  rw [← List.any_eq_true]
  split <;> simp_all

omit [LinearOrder ν] in
theorem errorOf_perm {units order : List (SubQuery ν)} (h : order.Perm units) :
    errorOf order = errorOf units := by
  have hany : order.any SubQuery.failed = units.any SubQuery.failed := by
    rw [Bool.eq_iff_iff, List.any_eq_true, List.any_eq_true]
    exact ⟨fun ⟨u, hu, hf⟩ => ⟨u, h.mem_iff.mp hu, hf⟩, fun ⟨u, hu, hf⟩ => ⟨u, h.mem_iff.mpr hu, hf⟩⟩
  rw [errorOf, hany, errorOf]

theorem sub_queries_ne_nil (htable : table ≠ OBJECT_VALUE_TABLE) : sub_queries table term ≠ [] := by
  rcases hstat : is_stat_table_query table with _ | _
  · obtain ⟨cf, hcf, -⟩ := exists_older term htable hstat
    exact List.ne_nil_of_mem hcf
  · cases term with
    | all =>
      rw [sub_queries_all_stat hstat]
      exact List.cons_ne_nil _ _
    | conditions statTerms max_tags =>
      exact List.ne_nil_of_mem (mem_sub_queries_stat hstat statTerms max_tags)

theorem reports_before {order : List (SubQuery ν)} {done rest : List (SubQuery ν)}
    (hsplit : order = done ++ rest) (hrest : rest ≠ []) :
    ∃ s, complete table order.length done = some s ∧ s.callbacks = [] := by
  have hlt : done.length < order.length := by
    rw [hsplit, List.length_append]
    have := List.length_pos_iff.mpr hrest
    omega
  obtain ⟨s, hs, hcollected⟩ := complete_some table done hlt
  exact ⟨s, hs, hcollected.callbacks⟩

/-- One outcome for every order of the completions. -/
theorem reports_of_perm (htable : table ≠ OBJECT_VALUE_TABLE) {units : List (SubQuery ν)}
    (hunits : units.map SubQuery.cfname = sub_queries table term)
    (hrows : ∀ u ∈ units, ∀ x ∈ u.rows, InfoLength n x)
    (hnone : ∀ u ∈ units, u.cfname = "" → u.failed = true) :
    ∃ result, ∀ order, order.Perm units → Reports table order (errorOf units) result := by
  have hsorted : ∀ u ∈ units, SortedUnits n u.query_result :=
    fun u hu => sortUnits_sorted (hrows u hu)
  have hsortedOlder : ∀ l ∈ olderResults units, SortedUnits n l := by
    intro l hl
    obtain ⟨u, hu, rfl⟩ := List.mem_map.mp hl
    exact hsorted u (List.mem_filter.mp hu).1
  have hsortedNew : ∀ l ∈ newResults units, SortedUnits n l := by
    intro l hl
    obtain ⟨u, hu, rfl⟩ := List.mem_map.mp hl
    exact hsorted u (List.mem_filter.mp hu).1
  have hne : units ≠ [] := by
    rintro rfl
    exact sub_queries_ne_nil htable hunits.symm
  have hneOrder : ∀ order : List (SubQuery ν), order.Perm units → order ≠ [] := by
    rintro order hperm rfl
    exact hne hperm.symm.eq_nil
  by_cases herror : errorOf units = 0
  · have hok : ∀ u ∈ units, u.failed = false := by
      intro u hu
      by_contra hfailed
      exact (errorOf_ne_zero_iff units).mpr ⟨u, hu, by simpa using hfailed⟩ herror
    obtain ⟨result, hresult⟩ := setOperations_some htable hunits hnone hok
    refine ⟨result, fun order hperm => ⟨?_, fun _ _ => reports_before⟩⟩
    obtain ⟨s, hcollected, hs⟩ := complete_last table (hneOrder order hperm)
    have hold : s.inp.Perm (olderResults units) :=
      hcollected.inp.trans ((hperm.filter _).map _)
    have hnew : s.inp_new_data.Perm (newResults units) := by
      rw [hcollected.inp_new_data]
      exact (hperm.filter _).map _
    rw [errorOf_perm hperm, herror, setOperations_perm hsortedOlder hsortedNew hold hnew,
      hresult] at hs
    exact ⟨_, hs, by rw [herror], rfl⟩
  · refine ⟨[], fun order hperm => ⟨?_, fun _ _ => reports_before⟩⟩
    obtain ⟨s, hcollected, hs⟩ := complete_last table (hneOrder order hperm)
    rw [errorOf_perm hperm, if_pos herror] at hs
    exact ⟨_, hs, rfl, hcollected.where_result_⟩

end Outcome

/-- The sub-queries of the two directions of a flow query; the second one failed or not. -/
def flowUnits (failed : Bool) : List (SubQuery Nat) :=
  [⟨SESSION_TABLE, [⟨5, [1]⟩], false⟩, ⟨SESSION_TABLE, [⟨7, [2]⟩, ⟨5, [1]⟩], failed⟩]

end TfAnalytics.QueryEngine
