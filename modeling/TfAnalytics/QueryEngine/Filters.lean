import TfAnalytics.QueryEngine.ResultLimit
import Mathlib.Data.List.TakeWhile

/-!
# Query engine — filters of the result rows

A filter list is an OR of ANDs of predicates. `PostProcessingQuery::process_query`
has two evaluators for it: one over the typed columns of a stats result
(`statKeeps`, with the loop `filter_mresult` that erases rows while it iterates)
and one over the text columns of the other tables (`rowKeeps`,
`filter_raw_result`).

* `filter_mresult_eq` — the erasing loop keeps the rows `statKeeps` keeps.
* `statAnd_eq_false_iff` — what makes a clause reject a stats row.
* `rowKeeps_eq` — the other evaluator finds a clause that holds.
* `filter_keeps_iff` — when a stats result is filtered as the filter list says.
* `numeric_filters_agree_iff` — when the two evaluators compare numbers alike.

The printing and reading of doubles and UUIDs, `stringToInteger` and
`regex_match` are not of this repository: `Conversions` has them.
-/

namespace TfAnalytics.QueryEngine

open TfAnalytics.Lib

-- ---------------------------------------------------------------------------
-- Filters
-- ---------------------------------------------------------------------------

/-- `match_op`. The JSON number is cast, so there may be others. -/
inductive MatchOp where
  | EQUAL | NOT_EQUAL | IN_RANGE | NOT_IN_RANGE | LEQ | GEQ | PREFIX | REGEX_MATCH | CONTAINS
  | other (n : Int)
  deriving DecidableEq

/-- `filter_match_t`; `match_e` is the pattern of the compiled expression. -/
structure FilterMatch where
  name : String
  value : String
  op : MatchOp
  ignore_col_absence : Bool := false
  match_e : String := ""
  deriving DecidableEq

/-- OR of ANDs. -/
abbrev FilterList : Type := List (List FilterMatch)

/-- The library functions the filters use. A `shared_ptr` is printed as an
address. -/
structure Conversions (δ : Type) where
  printDouble : δ → String
  printUuid : Nat → String
  printPointer : List (δ ×ₗ Nat) → String
  stringToInteger : String → Fin (2 ^ 64)
  stringToDouble : String → δ
  regex_match : (text pattern : String) → Bool

-- ---------------------------------------------------------------------------
-- The stats evaluator
-- ---------------------------------------------------------------------------

section Stats

variable {δ : Type} [LinearOrder δ] (C : Conversions δ)

/-- `vstream << iter->second`. -/
def StatVal.print : StatVal δ → String
  | .blank => ""
  | .string s => s
  | .uint64 n => toString n.val
  | .double d => C.printDouble d
  | .uuid u => C.printUuid u
  | .tdigest log => C.printPointer log
  | .centroid log => C.printPointer log

/-- `and_check` after the `switch`. -/
def statCheck (f : FilterMatch) (v : StatVal δ) : Bool :=
  match f.op with
  | .EQUAL => decide (f.value = v.print C)
  | .NOT_EQUAL => decide (f.value ≠ v.print C)
  | .LEQ =>
    match v with
    | .uint64 col_val => !decide (col_val > C.stringToInteger f.value)
    | .double col_val => !decide (col_val > C.stringToDouble f.value)
    | _ => true
  | .GEQ =>
    match v with
    | .uint64 col_val => !decide (col_val < C.stringToInteger f.value)
    | .double col_val => !decide (col_val < C.stringToDouble f.value)
    | _ => true
  | .REGEX_MATCH => C.regex_match (v.print C) f.match_e
  | _ => true

/-- `and_check` after the loop over one clause. -/
def statAnd (attrs : StatMap δ) : List FilterMatch → Bool
  | [] => true
  | f :: filter_and =>
    match attrs.find? f.name with
    -- `break`, with `and_check` as it is
    | none => true
    | some v => if statCheck C f v = false then false else statAnd attrs filter_and

/-- `!delete_row`. -/
def statKeeps (filter_list : FilterList) (attrs : StatMap δ) : Bool :=
  filter_list.any (statAnd C attrs)

end Stats

/-- The loop over `mresult_`: `passed` is what is before `it`, and `kt` says that
the last of it is to be erased at the next turn. -/
def eraseLoop {ε : Type} (delete_row : ε → Bool) : (passed : List ε) → (kt : Bool) →
    (rest : List ε) → List ε
  | passed, kt, [] => if kt then passed.dropLast else passed
  | passed, kt, it :: rest =>
    eraseLoop delete_row ((if kt then passed.dropLast else passed) ++ [it]) (delete_row it) rest

/-- The filter processing for stats table queries. -/
def filter_mresult {δ : Type} [LinearOrder δ] (C : Conversions δ) (filter_list : FilterList)
    (mresult_ : MapBuf δ) : List (SortKey δ × (StatMap δ × AggRow δ)) :=
  if filter_list.length ≠ 0 then
    eraseLoop (fun e => !statKeeps C filter_list e.2.1) [] false mresult_.entries
  else mresult_.entries

theorem eraseLoop_eq {ε : Type} (delete_row : ε → Bool) :
    ∀ (rest passed : List ε) (kt : Bool), eraseLoop delete_row passed kt rest =
      (if kt then passed.dropLast else passed) ++ rest.filter fun e => !delete_row e
  | [], passed, kt => by
    rw [eraseLoop, List.filter_nil, List.append_nil]
  | it :: rest, passed, kt => by
    rw [eraseLoop, eraseLoop_eq delete_row rest, List.filter_cons]
    cases hdel : delete_row it with
    | false => simp
    | true => simp

/-- The loop does what `filterRows` does with the evaluator. -/
theorem filter_mresult_eq {δ : Type} [LinearOrder δ] (C : Conversions δ) {filter_list : FilterList}
    (hne : filter_list ≠ []) (mresult_ : MapBuf δ) :
    filter_mresult C filter_list mresult_ =
      (StatsSelect.filterRows (statKeeps C filter_list) mresult_).entries := by
  have hlen : filter_list.length ≠ 0 := by simpa using hne
  rw [filter_mresult, if_pos hlen, eraseLoop_eq]
  simp [StatsSelect.filterRows]

-- ---------------------------------------------------------------------------
-- The evaluator of the other tables
-- ---------------------------------------------------------------------------

/-- `std::map<std::string, std::string>`. -/
abbrev TextRow : Type := OrderedMap String String

/-- The conversion of a number to a 32-bit two's complement `int`. -/
def toInt32 (n : Int) : Int := (n + 2 ^ 31) % 2 ^ 32 - 2 ^ 31

/-- `atoi`: blanks, a sign, digits. -/
def atoi (s : String) : Int :=
  match s.toList.dropWhile Char.isWhitespace with
  | '-' :: rest => toInt32 (-(StatsSelect.digitsValue rest : Int))
  | '+' :: rest => toInt32 (StatsSelect.digitsValue rest)
  | rest => toInt32 (StatsSelect.digitsValue rest)

section Rows

variable (regex_match : (text pattern : String) → Bool)

/-- `and_check` after the `switch`; `none` is the return of `QUERY_FAILURE`. -/
def rowCheck (f : FilterMatch) (text : String) : Option Bool :=
  match f.op with
  | .EQUAL => some (decide (f.value = text))
  | .NOT_EQUAL => some (decide (f.value ≠ text))
  | .LEQ => some (!decide (atoi text > atoi f.value))
  | .GEQ => some (!decide (atoi text < atoi f.value))
  | .REGEX_MATCH => some (regex_match text f.match_e)
  | _ => none

def rowAnd (row : TextRow) : List FilterMatch → Option Bool
  | [] => some true
  | f :: filter_and =>
    match row.find? f.name with
    | none => if f.ignore_col_absence = false then some false else rowAnd row filter_and
    | some text =>
      match rowCheck regex_match f text with
      | none => none
      | some false => some false
      | some true => rowAnd row filter_and

def rowKeeps (row : TextRow) : FilterList → Option Bool
  | [] => some false
  | filter_and :: filter_list =>
    match rowAnd regex_match row filter_and with
    | none => none
    | some true => some true
    | some false => rowKeeps row filter_list

/-- The filter processing for the other queries. -/
def filter_raw_result (filter_list : FilterList) (raw_result : List TextRow) :
    Option (List TextRow) :=
  if filter_list.length ≠ 0 then
    raw_result.foldlM
      (fun filtered_table row =>
        match rowKeeps regex_match row filter_list with
        | none => none
        | some true => some (filtered_table ++ [row])
        | some false => some filtered_table)
      []
  else some raw_result

end Rows

-- ---------------------------------------------------------------------------
-- What a filter list means
-- ---------------------------------------------------------------------------

/-- Some clause holds, when `sat` is what a predicate means. -/
def FilterList.Admits (sat : FilterMatch → Prop) (filter_list : FilterList) : Prop :=
  ∃ filter_and ∈ filter_list, ∀ f ∈ filter_and, sat f

namespace FilterMatch

/-- The operators that filters have. -/
def Supported (f : FilterMatch) : Prop :=
  f.op = .EQUAL ∨ f.op = .NOT_EQUAL ∨ f.op = .LEQ ∨ f.op = .GEQ ∨ f.op = .REGEX_MATCH

section

variable {δ : Type} [LinearOrder δ] (C : Conversions δ)

/-- The predicate on a typed value. Only numbers are ordered. -/
def Holds (f : FilterMatch) (v : StatVal δ) : Prop :=
  match f.op, v with
  | .EQUAL, v => f.value = v.print C
  | .NOT_EQUAL, v => f.value ≠ v.print C
  | .LEQ, .uint64 n => n ≤ C.stringToInteger f.value
  | .LEQ, .double d => d ≤ C.stringToDouble f.value
  | .GEQ, .uint64 n => C.stringToInteger f.value ≤ n
  | .GEQ, .double d => C.stringToDouble f.value ≤ d
  | .REGEX_MATCH, v => C.regex_match (v.print C) f.match_e = true
  | _, _ => False

/-- There is such a predicate on such a value: LEQ and GEQ are for numbers. -/
def Applies (f : FilterMatch) : StatVal δ → Prop
  | .uint64 _ => f.Supported
  | .double _ => f.Supported
  | _ => f.Supported ∧ f.op ≠ .LEQ ∧ f.op ≠ .GEQ

/-- The value of the attribute in the row satisfies the predicate. -/
def HoldsIn (attrs : StatMap δ) (f : FilterMatch) : Prop :=
  ∃ v, attrs.find? f.name = some v ∧ f.Holds C v

/-- The row has a value, and it does not satisfy the predicate. -/
def FailsIn (attrs : StatMap δ) (f : FilterMatch) : Prop :=
  ∃ v, attrs.find? f.name = some v ∧ f.Applies v ∧ ¬ f.Holds C v

/-- The row has nothing the predicate could be evaluated on. -/
def MissesIn (attrs : StatMap δ) (f : FilterMatch) : Prop :=
  ∀ v, attrs.find? f.name = some v → ¬ f.Applies v

end

/-- The predicate on a text column. -/
def HoldsText (regex_match : (text pattern : String) → Bool) (f : FilterMatch) (text : String) :
    Prop :=
  match f.op with
  | .EQUAL => f.value = text
  | .NOT_EQUAL => f.value ≠ text
  | .LEQ => atoi text ≤ atoi f.value
  | .GEQ => atoi f.value ≤ atoi text
  | .REGEX_MATCH => regex_match text f.match_e = true
  | _ => False

/-- The column of the row satisfies the predicate. -/
def HoldsInRow (regex_match : (text pattern : String) → Bool) (row : TextRow) (f : FilterMatch) :
    Prop :=
  ∃ text, row.find? f.name = some text ∧ f.HoldsText regex_match text

/-- A predicate of the query's filter: a column the row lacks does not satisfy it. -/
def Plain (f : FilterMatch) : Prop := f.Supported ∧ f.ignore_col_absence = false

end FilterMatch

-- ---------------------------------------------------------------------------
-- The stats evaluator, clause by clause
-- ---------------------------------------------------------------------------

section Stats

variable {δ : Type} [LinearOrder δ] (C : Conversions δ) (attrs : StatMap δ)

/-- A predicate the row fails, with no attribute missing before it. -/
def Refuted (filter_and : List FilterMatch) : Prop :=
  ∃ earlier f later, filter_and = earlier ++ f :: later ∧
    (∀ g ∈ earlier, attrs.find? g.name ≠ none) ∧ f.FailsIn C attrs

/-- Each clause with a predicate that cannot be evaluated on the row is refuted
before it comes to an attribute the row lacks. -/
def MissingRefuted (filter_list : FilterList) : Prop :=
  ∀ filter_and ∈ filter_list, (∃ f ∈ filter_and, f.MissesIn attrs) → Refuted C attrs filter_and

/-- The evaluator lets a predicate pass that does not apply to the value. -/
theorem statCheck_eq_false_iff (f : FilterMatch) (v : StatVal δ) :
    statCheck C f v = false ↔ f.Applies v ∧ ¬ f.Holds C v := by
  unfold statCheck FilterMatch.Holds FilterMatch.Applies FilterMatch.Supported
  cases f.op <;> cases v <;> simp

variable {C attrs}

theorem statAnd_eq_false_iff {filter_and : List FilterMatch} :
    statAnd C attrs filter_and = false ↔ Refuted C attrs filter_and := by
  induction filter_and with
  | nil =>
    constructor
    · intro h
      cases h
    · rintro ⟨earlier, f, later, hsplit, -⟩
      cases earlier <;> cases hsplit
  | cons f filter_and ih =>
    rw [statAnd]
    cases hfind : attrs.find? f.name with
    | none =>
      -- the loop leaves the clause here, whatever comes later
      constructor
      · intro h
        cases h
      · rintro ⟨earlier, g, later, hsplit, hpresent, v, hv, -⟩
        cases earlier with
        | nil =>
          obtain ⟨rfl, rfl⟩ := List.cons.inj hsplit
          rw [hfind] at hv
          cases hv
        | cons e earlier =>
          obtain ⟨rfl, rfl⟩ := List.cons.inj hsplit
          exact absurd hfind (hpresent f List.mem_cons_self)
    | some v =>
      show (if statCheck C f v = false then false else statAnd C attrs filter_and) = false ↔ _
      by_cases hcheck : statCheck C f v = false
      · rw [if_pos hcheck]
        have hfails : f.FailsIn C attrs := ⟨v, hfind, (statCheck_eq_false_iff C f v).mp hcheck⟩
        exact ⟨fun _ => ⟨[], f, filter_and, rfl, by simp, hfails⟩, fun _ => rfl⟩
      · rw [if_neg hcheck, ih]
        constructor
        · rintro ⟨earlier, g, later, rfl, hpresent, hfails⟩
          refine ⟨f :: earlier, g, later, rfl, ?_, hfails⟩
          intro e he
          rcases List.mem_cons.mp he with rfl | he
          · rw [hfind]
            exact Option.some_ne_none v
          · exact hpresent e he
        · rintro ⟨earlier, g, later, hsplit, hpresent, hfails⟩
          cases earlier with
          | nil =>
            obtain ⟨rfl, rfl⟩ := List.cons.inj hsplit
            obtain ⟨v', hv', hno⟩ := hfails
            obtain rfl : v = v' := Option.some.inj (hfind.symm.trans hv')
            exact absurd ((statCheck_eq_false_iff C f v).mpr hno) hcheck
          | cons e earlier =>
            obtain ⟨rfl, rfl⟩ := List.cons.inj hsplit
            exact ⟨earlier, g, later, rfl, fun e he => hpresent e (List.mem_cons_of_mem _ he), hfails⟩

theorem statKeeps_eq_false_iff {filter_list : FilterList} :
    statKeeps C filter_list attrs = false ↔ ∀ filter_and ∈ filter_list, Refuted C attrs filter_and := by
  rw [statKeeps, List.any_eq_false]
  simp only [Bool.not_eq_true, statAnd_eq_false_iff]

/-- A clause that holds is not refuted. -/
theorem not_refuted_of_holds {filter_and : List FilterMatch}
    (h : ∀ f ∈ filter_and, f.HoldsIn C attrs) : ¬ Refuted C attrs filter_and := by
  rintro ⟨earlier, f, later, rfl, -, v, hv, -, hno⟩
  obtain ⟨v', hv', hholds⟩ := h f (by simp)
  obtain rfl : v = v' := Option.some.inj (hv.symm.trans hv')
  exact hno hholds

/-- A clause that can be evaluated on the row holds or is refuted. -/
theorem refuted_of_evaluated {filter_and : List FilterMatch}
    (happly : ∀ f ∈ filter_and, ¬ f.MissesIn attrs)
    (hnot : ¬ ∀ f ∈ filter_and, f.HoldsIn C attrs) : Refuted C attrs filter_and := by
  have hvalue : ∀ f ∈ filter_and, ∃ v, attrs.find? f.name = some v ∧ f.Applies v := by
    intro f hf
    have h := happly f hf
    unfold FilterMatch.MissesIn at h
    push Not at h
    exact h
  push Not at hnot
  obtain ⟨f, hf, hfails⟩ := hnot
  obtain ⟨earlier, later, rfl⟩ := List.append_of_mem hf
  refine ⟨earlier, f, later, rfl, ?_, ?_⟩
  · intro g hg
    obtain ⟨v, hv, -⟩ := hvalue g (by simp [hg])
    rw [hv]
    exact Option.some_ne_none v
  · obtain ⟨v, hv, happlies⟩ := hvalue f hf
    exact ⟨v, hv, happlies, fun hholds => hfails ⟨v, hv, hholds⟩⟩

/-- A stats row is kept as the filter list says, unless no clause holds and a
clause it is not refuted by asks for what the row does not have. -/
theorem statKeeps_iff (filter_list : FilterList) :
    (statKeeps C filter_list attrs = true ↔
        filter_list.Admits (FilterMatch.HoldsIn C attrs)) ↔
      filter_list.Admits (FilterMatch.HoldsIn C attrs) ∨ MissingRefuted C attrs filter_list := by
  constructor
  · intro h
    by_cases hadmits : filter_list.Admits (FilterMatch.HoldsIn C attrs)
    · exact Or.inl hadmits
    · have hkeeps : statKeeps C filter_list attrs = false := by
        rw [← Bool.not_eq_true, h]
        exact hadmits
      exact Or.inr fun filter_and hmem _ => statKeeps_eq_false_iff.mp hkeeps filter_and hmem
  · intro h
    constructor
    · intro hkeeps
      rcases h with hadmits | hrefuted
      · exact hadmits
      · by_contra hnot
        have hall : ∀ filter_and ∈ filter_list, Refuted C attrs filter_and := by
          intro filter_and hmem
          by_cases hmiss : ∃ f ∈ filter_and, f.MissesIn attrs
          · exact hrefuted filter_and hmem hmiss
          · push Not at hmiss
            exact refuted_of_evaluated hmiss fun hholds => hnot ⟨filter_and, hmem, hholds⟩
        rw [statKeeps_eq_false_iff.mpr hall] at hkeeps
        cases hkeeps
    · rintro ⟨filter_and, hmem, hholds⟩
      by_contra hkeeps
      rw [Bool.not_eq_true, statKeeps_eq_false_iff] at hkeeps
      exact not_refuted_of_holds hholds (hkeeps filter_and hmem)

/-- On a row with all attributes, a clause is what its predicates are. -/
theorem statAnd_iff {filter_and : List FilterMatch}
    (h : ∀ f ∈ filter_and, (attrs.find? f.name).isSome = true) :
    statAnd C attrs filter_and = true ↔
      ∀ f ∈ filter_and, ∀ v, attrs.find? f.name = some v → statCheck C f v = true := by
  induction filter_and with
  | nil => exact ⟨fun _ => nofun, fun _ => rfl⟩
  | cons f rest ih =>
    obtain ⟨v, hv⟩ := Option.isSome_iff_exists.mp (h f List.mem_cons_self)
    have ih := ih fun g hg => h g (List.mem_cons_of_mem f hg)
    unfold statAnd
    rw [hv]
    show (if statCheck C f v = false then false else statAnd C attrs rest) = true ↔ _
    rw [List.forall_mem_cons, ← ih, hv]
    by_cases hcheck : statCheck C f v = true
    · rw [if_neg (by rw [hcheck]; decide)]
      simp [hcheck]
    · rw [if_pos (Bool.eq_false_iff.mpr hcheck)]
      simp [hcheck]

end Stats

-- ---------------------------------------------------------------------------
-- The evaluator of the other tables, clause by clause
-- ---------------------------------------------------------------------------

section Rows

variable (regex_match : (text pattern : String) → Bool)

theorem rowCheck_eq {f : FilterMatch} (hop : f.Supported) (text : String) :
    ∃ ok, rowCheck regex_match f text = some ok ∧ (ok = true ↔ f.HoldsText regex_match text) := by
  unfold rowCheck FilterMatch.HoldsText
  rcases hop with hop | hop | hop | hop | hop <;> rw [hop] <;> exact ⟨_, rfl, by simp⟩

theorem rowAnd_eq (row : TextRow) {filter_and : List FilterMatch}
    (hplain : ∀ f ∈ filter_and, f.Plain) :
    ∃ ok, rowAnd regex_match row filter_and = some ok ∧
      (ok = true ↔ ∀ f ∈ filter_and, f.HoldsInRow regex_match row) := by
  induction filter_and with
  | nil => exact ⟨true, rfl, by simp⟩
  | cons f filter_and ih =>
    obtain ⟨hop, hcol⟩ := hplain f List.mem_cons_self
    obtain ⟨rest, hrest, hrestIff⟩ := ih fun g hg => hplain g (List.mem_cons_of_mem _ hg)
    rw [rowAnd]
    cases hfind : row.find? f.name with
    | none =>
      refine ⟨false, if_pos hcol, ?_⟩
      constructor
      · intro h
        cases h
      · intro h
        obtain ⟨text, htext, -⟩ := h f List.mem_cons_self
        rw [hfind] at htext
        cases htext
    | some text =>
      obtain ⟨ok, hok, hokIff⟩ := rowCheck_eq regex_match hop text
      have hhere : f.HoldsInRow regex_match row ↔ ok = true := by
        rw [hokIff]
        constructor
        · rintro ⟨text', htext', hholds⟩
          rw [Option.some.inj (hfind.symm.trans htext')]
          exact hholds
        · intro hholds
          exact ⟨text, hfind, hholds⟩
      rw [List.forall_mem_cons, hhere, ← hrestIff]
      simp only [hok, hrest]
      cases ok with
      | false => exact ⟨false, rfl, by simp⟩
      | true => exact ⟨rest, rfl, by simp⟩

theorem rowKeeps_eq (row : TextRow) {filter_list : FilterList}
    (hplain : ∀ filter_and ∈ filter_list, ∀ f ∈ filter_and, f.Plain) :
    ∃ ok, rowKeeps regex_match row filter_list = some ok ∧
      (ok = true ↔ filter_list.Admits (FilterMatch.HoldsInRow regex_match row)) := by
  unfold FilterList.Admits
  induction filter_list with
  | nil => exact ⟨false, rfl, by simp⟩
  | cons filter_and filter_list ih =>
    obtain ⟨ok, hok, hokIff⟩ := rowAnd_eq regex_match row (hplain filter_and List.mem_cons_self)
    obtain ⟨rest, hrest, hrestIff⟩ := ih fun c hc => hplain c (List.mem_cons_of_mem _ hc)
    rw [List.exists_mem_cons_iff, ← hokIff, ← hrestIff, rowKeeps]
    simp only [hok, hrest]
    cases ok with
    | false => exact ⟨rest, rfl, by simp⟩
    | true => exact ⟨true, rfl, by simp⟩

/-- The rows that are kept, of those the loop comes to. -/
theorem filter_raw_result_eq {filter_list : FilterList} (hne : filter_list ≠ [])
    (hplain : ∀ filter_and ∈ filter_list, ∀ f ∈ filter_and, f.Plain) (raw_result : List TextRow) :
    ∃ kept, filter_raw_result regex_match filter_list raw_result = some kept ∧
      ∀ row, row ∈ kept ↔
        row ∈ raw_result ∧ filter_list.Admits (FilterMatch.HoldsInRow regex_match row) := by
  have hlen : filter_list.length ≠ 0 := by simpa using hne
  rw [filter_raw_result, if_pos hlen]
  -- the loop over any rows, with any that were kept before
  suffices hloop : ∀ (rows done : List TextRow), ∃ kept,
      rows.foldlM
        (fun filtered_table row =>
          match rowKeeps regex_match row filter_list with
          | none => none
          | some true => some (filtered_table ++ [row])
          | some false => some filtered_table) done = some kept ∧
      ∀ row, row ∈ kept ↔ row ∈ done ∨
        row ∈ rows ∧ filter_list.Admits (FilterMatch.HoldsInRow regex_match row) by
    obtain ⟨kept, hkept, hmem⟩ := hloop raw_result []
    exact ⟨kept, hkept, fun row => by rw [hmem row]; simp⟩
  intro rows
  induction rows with
  | nil => exact fun done => ⟨done, rfl, fun row => by simp⟩
  | cons r rows ih =>
    intro done
    obtain ⟨ok, hok, hokIff⟩ := rowKeeps_eq regex_match r hplain
    rw [List.foldlM_cons, hok]
    cases ok with
    | false =>
      obtain ⟨kept, hkept, hmem⟩ := ih done
      refine ⟨kept, hkept, fun row => ?_⟩
      have hr : ¬ filter_list.Admits (FilterMatch.HoldsInRow regex_match r) := fun h => by
        cases hokIff.mpr h
      rw [hmem row, List.mem_cons]
      constructor
      · rintro (h | ⟨h, hadmits⟩)
        · exact Or.inl h
        · exact Or.inr ⟨Or.inr h, hadmits⟩
      · rintro (h | ⟨rfl | h, hadmits⟩)
        · exact Or.inl h
        · exact absurd hadmits hr
        · exact Or.inr ⟨h, hadmits⟩
    | true =>
      obtain ⟨kept, hkept, hmem⟩ := ih (done ++ [r])
      refine ⟨kept, hkept, fun row => ?_⟩
      have hr : filter_list.Admits (FilterMatch.HoldsInRow regex_match r) := hokIff.mp rfl
      rw [hmem row, List.mem_append, List.mem_singleton, List.mem_cons]
      constructor
      · rintro ((h | rfl) | ⟨h, hadmits⟩)
        · exact Or.inl h
        · exact Or.inr ⟨Or.inl rfl, hr⟩
        · exact Or.inr ⟨Or.inr h, hadmits⟩
      · rintro (h | ⟨rfl | h, hadmits⟩)
        · exact Or.inl (Or.inl h)
        · exact Or.inl (Or.inr rfl)
        · exact Or.inr ⟨h, hadmits⟩

end Rows

/-- A stats row is kept exactly when some clause has all its predicates on
attributes of the row and satisfied, if such a clause is there anyway or each
clause that asks for what the row lacks is refuted first. The rows of other tables always are. -/
theorem filter_keeps_iff {δ : Type} [LinearOrder δ] (C : Conversions δ) {filter_list : FilterList}
    (hne : filter_list ≠ []) :
    (∀ (mresult_ : MapBuf δ), ∀ e ∈ mresult_.entries,
      ((e ∈ filter_mresult C filter_list mresult_ ↔
          filter_list.Admits (FilterMatch.HoldsIn C e.2.1)) ↔
        filter_list.Admits (FilterMatch.HoldsIn C e.2.1) ∨ MissingRefuted C e.2.1 filter_list)) ∧
    ((∀ filter_and ∈ filter_list, ∀ f ∈ filter_and, f.Plain) →
      ∀ raw_result : List TextRow, ∃ kept,
        filter_raw_result C.regex_match filter_list raw_result = some kept ∧
        ∀ row ∈ raw_result,
          (row ∈ kept ↔ filter_list.Admits (FilterMatch.HoldsInRow C.regex_match row))) := by
  constructor
  · intro mresult_ e he
    have hmem : e ∈ filter_mresult C filter_list mresult_ ↔ statKeeps C filter_list e.2.1 = true := by
      rw [filter_mresult_eq C hne, StatsSelect.filterRows, List.mem_filter]
      exact ⟨fun h => h.2, fun h => ⟨he, h⟩⟩
    rw [hmem]
    exact statKeeps_iff filter_list
  · intro hplain raw_result
    obtain ⟨kept, hkept, hmem⟩ := filter_raw_result_eq C.regex_match hne hplain raw_result
    refine ⟨kept, hkept, fun row hrow => ?_⟩
    rw [hmem row]
    exact ⟨fun h => h.2, fun h => ⟨hrow, h⟩⟩

-- Natural numbers for doubles; patterns here are words, matched as a whole.
def sampleConversions : Conversions Nat where
  printDouble d := toString d
  printUuid u := toString u
  printPointer _ := "0"
  stringToInteger s := Fin.ofNat (2 ^ 64) (StatsSelect.strtoul s.toList)
  stringToDouble s := StatsSelect.digitsValue s.toList
  regex_match text pattern := text == pattern

/-- A row of a stats query that selected `name`. -/
def sampleAttrs : StatMap Nat := .ofList [("name", .string "vr1")]

def sampleResult : MapBuf Nat := Multimap.empty.insertLower [] (sampleAttrs, .empty)

/-- The same filter on both paths: the row is kept by the one, the other drops
its text form. -/
theorem absent_attribute_admits :
    ([], (sampleAttrs, .empty)) ∈
        filter_mresult sampleConversions [[{ name := "cpu", value := "1", op := .EQUAL }]] sampleResult ∧
      ¬ FilterList.Admits (FilterMatch.HoldsIn sampleConversions sampleAttrs)
        [[{ name := "cpu", value := "1", op := .EQUAL }]] ∧
      filter_raw_result sampleConversions.regex_match
        [[{ name := "cpu", value := "1", op := .EQUAL }]] [.ofList [("name", "vr1")]] = some [] := by
  refine ⟨?_, ?_, rfl⟩
  · have heval : filter_mresult sampleConversions [[{ name := "cpu", value := "1", op := .EQUAL }]]
        sampleResult = [([], (sampleAttrs, .empty))] := rfl
    rw [heval]
    exact List.mem_singleton.mpr rfl
  · rintro ⟨filter_and, hmem, hholds⟩
    obtain rfl := List.mem_singleton.mp hmem
    obtain ⟨v, hv, -⟩ := hholds _ List.mem_cons_self
    cases hv

/-- One clause holds on the row. Of the two clauses of the second filter one
names an attribute the row lacks, but after a predicate the row fails. -/
theorem filter_keeps_sample :
    ([], (sampleAttrs, .empty)) ∈
        filter_mresult sampleConversions [[{ name := "name", value := "vr1", op := .EQUAL }]]
          sampleResult ∧
      ([], (sampleAttrs, .empty)) ∉
        filter_mresult sampleConversions
          [[{ name := "name", value := "vr2", op := .EQUAL }, { name := "cpu", value := "1", op := .EQUAL }],
            [{ name := "name", value := "vr1", op := .NOT_EQUAL }]]
          sampleResult := by
  have hentry : (([] : SortKey Nat), (sampleAttrs, OrderedMap.empty)) ∈ sampleResult.entries :=
    List.mem_cons_self
  constructor
  · have hadmits : FilterList.Admits (FilterMatch.HoldsIn sampleConversions sampleAttrs)
        [[{ name := "name", value := "vr1", op := .EQUAL }]] := by
      refine ⟨_, List.mem_cons_self, ?_⟩
      intro f hf
      obtain rfl := List.mem_singleton.mp hf
      exact ⟨.string "vr1", rfl, rfl⟩
    exact (((filter_keeps_iff sampleConversions (List.cons_ne_nil _ _)).1 sampleResult
      ([], (sampleAttrs, .empty)) hentry).mpr (Or.inl hadmits)).mpr hadmits
  · have hrefuted : MissingRefuted sampleConversions sampleAttrs
        [[{ name := "name", value := "vr2", op := .EQUAL }, { name := "cpu", value := "1", op := .EQUAL }],
          [{ name := "name", value := "vr1", op := .NOT_EQUAL }]] := by
      intro filter_and hmem _
      rcases List.mem_cons.mp hmem with rfl | hmem
      · exact ⟨[], _, _, rfl, fun g hg => absurd hg List.not_mem_nil,
          .string "vr1", rfl, (statCheck_eq_false_iff _ _ _).mp rfl⟩
      · obtain rfl := List.mem_singleton.mp hmem
        exact ⟨[], _, _, rfl, fun g hg => absurd hg List.not_mem_nil,
          .string "vr1", rfl, (statCheck_eq_false_iff _ _ _).mp rfl⟩
    intro hkept
    obtain ⟨filter_and, hmem, hholds⟩ :=
      (((filter_keeps_iff sampleConversions (List.cons_ne_nil _ _)).1 sampleResult
        ([], (sampleAttrs, .empty)) hentry).mpr (Or.inr hrefuted)).mp hkept
    rcases List.mem_cons.mp hmem with rfl | hmem
    · obtain ⟨v, hv, hvr2⟩ := hholds _ List.mem_cons_self
      cases hv
      exact ((statCheck_eq_false_iff _ _ _).mp rfl).2 hvr2
    · obtain rfl := List.mem_singleton.mp hmem
      obtain ⟨v, hv, hnot⟩ := hholds _ List.mem_cons_self
      cases hv
      exact ((statCheck_eq_false_iff _ _ _).mp rfl).2 hnot

-- ---------------------------------------------------------------------------
-- Numbers
-- ---------------------------------------------------------------------------

/-- A text of decimal digits. -/
def IsDecimal (s : String) : Prop := s.toList ≠ [] ∧ ∀ ch ∈ s.toList, ch.isDigit = true

instance (s : String) : Decidable (IsDecimal s) :=
  decidable_of_iff (s.toList ≠ [] ∧ s.toList.all Char.isDigit = true)
    (and_congr_right fun _ => List.all_eq_true)

/-- The number a decimal text stands for. -/
def decimalValue (s : String) : Nat := StatsSelect.digitsValue s.toList

/-- `stringToInteger` reads decimal texts. -/
def Conversions.ReadsDecimals {δ : Type} (C : Conversions δ) : Prop :=
  ∀ s, IsDecimal s → decimalValue s < 2 ^ 64 → (C.stringToInteger s).val = decimalValue s

/-- Both numbers are within 31 bits of one multiple of `2^32`, or the order of
their multiples is that of their offsets. -/
def SameOrder32 (v c : Nat) : Prop :=
  (v + 2 ^ 31) / 2 ^ 32 = (c + 2 ^ 31) / 2 ^ 32 ∨
  (v + 2 ^ 31) / 2 ^ 32 < (c + 2 ^ 31) / 2 ^ 32 ∧ (v + 2 ^ 31) % 2 ^ 32 < (c + 2 ^ 31) % 2 ^ 32 ∨
  (c + 2 ^ 31) / 2 ^ 32 < (v + 2 ^ 31) / 2 ^ 32 ∧ (c + 2 ^ 31) % 2 ^ 32 < (v + 2 ^ 31) % 2 ^ 32

theorem digitsValue_eq {l : List Char} (h : ∀ ch ∈ l, ch.isDigit = true) :
    StatsSelect.digitsValue l = Nat.ofDigitChars 10 l 0 := by
  rw [StatsSelect.digitsValue, List.takeWhile_eq_self_iff.mpr h, Nat.ofDigitChars_eq_foldl]

theorem isDecimal_toString (n : Nat) : IsDecimal (toString n) := by
  rw [Nat.toString_eq_repr, IsDecimal, Nat.toList_repr]
  exact ⟨Nat.toDigits_ne_nil, fun ch hch => Nat.isDigit_of_mem_toDigits (by decide) (by decide) hch⟩

@[simp] theorem decimalValue_toString (n : Nat) : decimalValue (toString n) = n := by
  have hdigits := (isDecimal_toString n).2
  rw [decimalValue, digitsValue_eq hdigits, Nat.toString_eq_repr, Nat.toList_repr]
  exact Nat.ofDigitChars_ten_toDigits

theorem not_isWhitespace_of_isDigit {ch : Char} (h : ch.isDigit = true) : ch.isWhitespace = false := by
  rw [Bool.eq_false_iff]
  intro hblank
  simp only [Char.isWhitespace, Bool.or_eq_true, decide_eq_true_eq] at hblank
  rcases hblank with ((rfl | rfl) | rfl) | rfl <;> exact absurd h (by decide)

theorem dropWhile_isWhitespace {l : List Char} (hne : l ≠ [])
    (hdigits : ∀ ch ∈ l, ch.isDigit = true) : l.dropWhile Char.isWhitespace = l := by
  cases l with
  | nil => exact absurd rfl hne
  | cons ch rest =>
    rw [List.dropWhile_cons, not_isWhitespace_of_isDigit (hdigits ch List.mem_cons_self)]
    rfl

theorem atoi_of_isDecimal {s : String} (h : IsDecimal s) : atoi s = toInt32 (decimalValue s) := by
  obtain ⟨hne, hdigits⟩ := h
  unfold atoi decimalValue
  rw [dropWhile_isWhitespace hne hdigits]
  split
  · next rest hs => exact absurd (hdigits '-' (by simp [hs])) (by decide)
  · next rest hs => exact absurd (hdigits '+' (by simp [hs])) (by decide)
  · rfl

/-- The low halves compare as the numbers do. -/
theorem toInt32_order_iff (v c : Nat) :
    ((toInt32 v ≤ toInt32 c ↔ v ≤ c) ∧ (toInt32 c ≤ toInt32 v ↔ c ≤ v)) ↔ SameOrder32 v c := by
  unfold toInt32 SameOrder32
  omega

/-- A LEQ or GEQ filter of the query. -/
def numericFilter (name value : String) (op : MatchOp) : FilterMatch :=
  { name := name, value := value, op := op }

section Numbers

variable {δ : Type} [LinearOrder δ] (C : Conversions δ)

omit [LinearOrder δ] in
theorem rowKeeps_single {row : TextRow} {f : FilterMatch} {text : String}
    (hrow : row.find? f.name = some text) :
    rowKeeps C.regex_match row [[f]] = rowCheck C.regex_match f text := by
  rw [rowKeeps, rowAnd, hrow]
  cases hcheck : rowCheck C.regex_match f text with
  | none => simp [hcheck]
  | some ok => cases ok <;> simp [hcheck, rowAnd, rowKeeps]

theorem statKeeps_single {attrs : StatMap δ} {f : FilterMatch} {v : StatVal δ}
    (hattrs : attrs.find? f.name = some v) :
    statKeeps C [[f]] attrs = statCheck C f v := by
  rw [statKeeps, List.any_cons, List.any_nil, Bool.or_false, statAnd, hattrs]
  cases hcheck : statCheck C f v <;> simp [hcheck, statAnd]

/-- For a column with an unsigned 64-bit number and a decimal filter value, LEQ
and GEQ keep the same rows on both paths, those with the column at most
respectively at least the value, exactly when `atoi` keeps the order of the two. -/
theorem numeric_filters_agree_iff (hreads : C.ReadsDecimals) {name value : String}
    (hdecimal : IsDecimal value) (hvalue : decimalValue value < 2 ^ 64) (column : Fin (2 ^ 64))
    {row : TextRow} {attrs : StatMap δ} (hrow : row.find? name = some (toString column.val))
    (hattrs : attrs.find? name = some (.uint64 column)) :
    (((rowKeeps C.regex_match row [[numericFilter name value .LEQ]] = some true ↔
          statKeeps C [[numericFilter name value .LEQ]] attrs = true) ∧
        (statKeeps C [[numericFilter name value .LEQ]] attrs = true ↔
          column.val ≤ decimalValue value)) ∧
      ((rowKeeps C.regex_match row [[numericFilter name value .GEQ]] = some true ↔
          statKeeps C [[numericFilter name value .GEQ]] attrs = true) ∧
        (statKeeps C [[numericFilter name value .GEQ]] attrs = true ↔
          column.val ≥ decimalValue value))) ↔
      SameOrder32 column.val (decimalValue value) := by
  have hcolumn : atoi (toString column.val) = toInt32 column.val := by
    rw [atoi_of_isDecimal (isDecimal_toString _), decimalValue_toString]
  have hfilter : atoi value = toInt32 (decimalValue value) := atoi_of_isDecimal hdecimal
  have hinteger : (C.stringToInteger value).val = decimalValue value := hreads value hdecimal hvalue
  have hrowLeq : rowKeeps C.regex_match row [[numericFilter name value .LEQ]] = some true ↔
      toInt32 column.val ≤ toInt32 (decimalValue value) := by
    rw [rowKeeps_single C hrow]
    show some (!decide (atoi (toString column.val) > atoi value)) = some true ↔ _
    rw [hcolumn, hfilter]
    simp
  have hrowGeq : rowKeeps C.regex_match row [[numericFilter name value .GEQ]] = some true ↔
      toInt32 (decimalValue value) ≤ toInt32 column.val := by
    rw [rowKeeps_single C hrow]
    show some (!decide (atoi (toString column.val) < atoi value)) = some true ↔ _
    rw [hcolumn, hfilter]
    simp
  have hstatLeq : statKeeps C [[numericFilter name value .LEQ]] attrs = true ↔
      column.val ≤ decimalValue value := by
    rw [statKeeps_single C hattrs, ← hinteger, ← Fin.le_def]
    show (!decide (column > C.stringToInteger value)) = true ↔ _
    simp
  have hstatGeq : statKeeps C [[numericFilter name value .GEQ]] attrs = true ↔
      column.val ≥ decimalValue value := by
    rw [statKeeps_single C hattrs, ge_iff_le, ← hinteger, ← Fin.le_def]
    show (!decide (column < C.stringToInteger value)) = true ↔ _
    simp
  rw [hrowLeq, hrowGeq, hstatLeq, hstatGeq, ← toInt32_order_iff]
  constructor
  · rintro ⟨⟨hleq, -⟩, hgeq, -⟩
    exact ⟨hleq, hgeq⟩
  · rintro ⟨hleq, hgeq⟩
    exact ⟨⟨hleq, Iff.rfl⟩, hgeq, Iff.rfl⟩

end Numbers

/-- `strtoul` reads decimal texts. -/
theorem sampleConversions_reads : sampleConversions.ReadsDecimals := by
  intro s hdecimal hlt
  obtain ⟨hne, hdigits⟩ := hdecimal
  have hstrtoul : StatsSelect.strtoul s.toList = decimalValue s := by
    unfold StatsSelect.strtoul decimalValue
    rw [dropWhile_isWhitespace hne hdigits]
    split
    · next rest hs => exact absurd (hdigits '-' (by simp [hs])) (by decide)
    · next rest hs => exact absurd (hdigits '+' (by simp [hs])) (by decide)
    · exact min_eq_left (by unfold decimalValue at hlt; omega)
  show (Fin.ofNat (2 ^ 64) (StatsSelect.strtoul s.toList)).val = decimalValue s
  rw [hstrtoul, Fin.val_ofNat, Nat.mod_eq_of_lt hlt]

/-- A counter of `2^31` bytes is negative for `atoi`. -/
theorem atoi_reverses_order :
    rowKeeps sampleConversions.regex_match (.ofList [("bytes", "2147483648")])
        [[numericFilter "bytes" "100" .LEQ]] = some true ∧
      statKeeps sampleConversions [[numericFilter "bytes" "100" .LEQ]]
        (.ofList [("bytes", .uint64 2147483648)]) = false ∧
      ¬ 2147483648 ≤ decimalValue "100" := by
  refine ⟨?_, ?_, ?_⟩
  · decide +kernel
  · decide +kernel
  · decide +kernel

theorem numeric_filters_agree_sample :
    SameOrder32 1000 2000 ∧
      rowKeeps sampleConversions.regex_match (.ofList [("bytes", toString 1000)])
        [[numericFilter "bytes" (toString 2000) .LEQ]] = some true := by
  have horder : SameOrder32 1000 2000 := Or.inl rfl
  refine ⟨horder, ?_⟩
  rw [← decimalValue_toString 2000] at horder
  have hagree := (numeric_filters_agree_iff sampleConversions sampleConversions_reads
    (isDecimal_toString 2000) (by rw [decimalValue_toString]; decide) 1000
    (show OrderedMap.find? (.ofList [("bytes", toString 1000)]) "bytes" = some (toString 1000) from rfl)
    (show OrderedMap.find? (.ofList [("bytes", StatVal.uint64 1000)]) "bytes" = some (.uint64 1000) from
      rfl)).mpr horder
  exact hagree.1.1.mpr (hagree.1.2.mpr (by rw [decimalValue_toString]; decide))

end TfAnalytics.QueryEngine
