import TfAnalytics.Lib.Multimap
import TfAnalytics.QueryEngine.Window
import Mathlib.Data.Prod.Lex
import Mathlib.Data.List.Lex
import Mathlib.Data.String.Basic
import Mathlib.Data.Fin.Basic

/-!
# Query engine — SELECT processing of stats tables

`stats_select.cc` as functions. A query's SELECT and SORT lists become a
`StatsSelect` (`StatsSelect::StatsSelect`, `SetSortOrder`). Each row of a chunk
goes through `LoadRow`, which finds the row's group (the map `uniks` of its
non-aggregate columns) and adds the row's aggregates to the group's entry of
the output multimap. `Merge` folds one multimap into another, `MergeFinal`
folds the multimaps of all instances and re-keys the result when an aggregate
is a sort column.

The key of an entry has one slot for each sort column and a last slot for the
hash of `uniks`. Aggregate slots stay blank until `MergeFinal`.

Failed `QE_ASSERT`s, exceptions and accesses outside a vector are `none`.
`boost::hash_range` is the parameter `hash_range`. A `double` is an element of
a linear order `δ` (there is no NaN), and a digest or centroid of the t-digest
library is the list of the values added to it; `Numerics` has what the code
uses of both. Strings are lists of characters, not bytes.
-/

namespace TfAnalytics.QueryEngine

open TfAnalytics.Lib

def STAT_TIME_FIELD : String := "T"
def STAT_TIMEBIN_FIELD : String := "T="
def STAT_UUID_FIELD : String := "UUID"

-- ---------------------------------------------------------------------------
-- Values, operators, rows
-- ---------------------------------------------------------------------------

instance uint64_neZero : NeZero (2 ^ 64) := ⟨by decide⟩

/-- `QEOpServerProxy::SubVal`. -/
inductive StatVal (δ : Type) where
  | blank
  | string (s : String)
  | uint64 (n : Fin (2 ^ 64))
  | double (d : δ)
  | uuid (u : Nat)
  | tdigest (log : List (δ ×ₗ Nat))
  | centroid (log : List (δ ×ₗ Nat))

/-- `QEOpServerProxy::AggOper`. -/
inductive AggOper where
  | INVALID | SUM | COUNT | CLASS | MAX | MIN | PERCENTILES | AVG | COUNT_DISTINCT
  deriving DecidableEq

namespace StatVal

variable {δ : Type}

/-- `boost::variant::operator<` compares `which()` first, then the values. -/
def code : StatVal δ → Nat ×ₗ (String ×ₗ (Nat ×ₗ List (δ ×ₗ Nat)))
  | blank => toLex (0, toLex ("", toLex (0, [])))
  | string s => toLex (1, toLex (s, toLex (0, [])))
  | uint64 n => toLex (2, toLex ("", toLex (n, [])))
  | double d => toLex (3, toLex ("", toLex (0, [toLex (d, 0)])))
  | uuid u => toLex (4, toLex ("", toLex (u, [])))
  | tdigest log => toLex (5, toLex ("", toLex (0, log)))
  | centroid log => toLex (6, toLex ("", toLex (0, log)))

theorem code_injective : Function.Injective (code : StatVal δ → _) := by
  intro a b h
  cases a <;> cases b <;>
    simp only [code, toLex_inj, Prod.mk.injEq, reduceCtorEq, Nat.reduceEqDiff, false_and,
      true_and, and_true, List.cons.injEq] at h
  · rfl
  · exact congrArg string h
  · exact congrArg uint64 (Fin.ext h)
  · exact congrArg double h
  · exact congrArg uuid h
  · exact congrArg tdigest h
  · exact congrArg centroid h

instance [LinearOrder δ] : LinearOrder (StatVal δ) := LinearOrder.lift' code code_injective

end StatVal

namespace AggOper

def toNat : AggOper → Nat
  | INVALID => 0
  | SUM => 1
  | COUNT => 2
  | CLASS => 3
  | MAX => 4
  | MIN => 5
  | PERCENTILES => 6
  | AVG => 7
  | COUNT_DISTINCT => 8

theorem toNat_injective : Function.Injective toNat := by
  intro a b h
  cases a <;> cases b <;> first | rfl | exact absurd h (by decide)

instance : LinearOrder AggOper := LinearOrder.lift' toNat toNat_injective

end AggOper

abbrev AggKey : Type := AggOper ×ₗ String

def aggkey (op : AggOper) (field : String) : AggKey := toLex (op, field)

/-- The operator of an aggregate's key. -/
def AggKey.oper (k : AggKey) : AggOper := (ofLex k).1

/-- `std::map<std::string, StatVal>`. -/
abbrev StatMap (δ : Type) : Type := OrderedMap String (StatVal δ)

/-- `QEOpServerProxy::AggRowT`. -/
abbrev AggRow (δ : Type) : Type := OrderedMap AggKey (StatVal δ)

abbrev SortKey (δ : Type) : Type := List (StatVal δ)

/-- `QEOpServerProxy::OutRowMultimapT`. -/
abbrev MapBuf (δ : Type) [LinearOrder δ] : Type := Multimap (SortKey δ) (StatMap δ × AggRow δ)

/-- `std::set<std::string>`. -/
abbrev StringSet : Type := OrderedMap String Unit

def StringSet.has (s : StringSet) (name : String) : Bool := (s.find? name).isSome

theorem StringSet.has_insert (s : StringSet) (name n : String) :
    StringSet.has (s.insert name ()) n = true ↔ s.has n = true ∨ n = name := by
  unfold StringSet.has
  rw [OrderedMap.find?_insert]
  by_cases hn : n = name
  · simp [hn]
  · simp [hn]

structure StatEntry (δ : Type) where
  name : String
  value : StatVal δ

/-- The arguments of one `LoadRow` call. -/
structure Sample (δ : Type) where
  u : Nat
  timestamp : Fin (2 ^ 64)
  row : List (StatEntry δ)

/-- What the code uses of `double` arithmetic and of the t-digest library. -/
class Numerics (δ : Type) where
  ofUInt64 : Fin (2 ^ 64) → δ
  add : δ → δ → δ
  /-- `Centroid_get_mean`. -/
  mean : List (δ ×ₗ Nat) → δ
  /-- The mean and count of each `TDigest_get_centroid`. -/
  centroids : List (δ ×ₗ Nat) → List (δ ×ₗ Nat)

/-- Natural numbers in the place of doubles, to run the model on examples. -/
instance : Numerics Nat where
  ofUInt64 n := n
  add a b := a + b
  mean log := (log.map fun c => (ofLex c).1 * (ofLex c).2).sum / (log.map fun c => (ofLex c).2).sum
  centroids log := log

-- ---------------------------------------------------------------------------
-- StatsQuery::ParseAgg
-- ---------------------------------------------------------------------------

/-- `sfield = vname.substr(n); sfield.erase(len - 1)`: throws `out_of_range`
when nothing is left to erase. -/
def aggField (vname : String) (n : Nat) : Option String :=
  if n < vname.toList.length then some (String.ofList (vname.toList.drop n).dropLast) else none

def aggWords : List (String × AggOper) :=
  [("COUNT_DISTINCT", .COUNT_DISTINCT), ("COUNT", .COUNT), ("SUM", .SUM), ("CLASS", .CLASS),
   ("MAX", .MAX), ("MIN", .MIN), ("AVG", .AVG), ("PERCENTILES", .PERCENTILES)]

/-- The first operator word the name starts with. `sfield` keeps the caller's
value when there is none. -/
def ParseAgg (vname sfield : String) : Option (AggOper × String) :=
  match aggWords.find? fun w => w.1.toList.isPrefixOf vname.toList with
  | none => some (.INVALID, sfield)
  | some (word, op) => (aggField vname (word.length + 1)).map fun f => (op, f)

-- ---------------------------------------------------------------------------
-- Aggregate names as a grammar
-- ---------------------------------------------------------------------------

/-- `vname` is `OP(f)`, for the word of `op` and a non-empty field name. -/
def IsAgg (op : AggOper) (f vname : String) : Prop :=
  ∃ word, (word, op) ∈ aggWords ∧ f ≠ "" ∧ vname = word ++ "(" ++ f ++ ")"

/-- What `ParseAgg` should answer: an operator for its `OP(f)`, `INVALID` for
every other name. -/
structure ParsedByGrammar (vname sfield : String) : Prop where
  returns : ParseAgg vname sfield ≠ none
  operator : ∀ op f, op ≠ .INVALID →
    (ParseAgg vname sfield = some (op, f) ↔ IsAgg op f vname)
  invalid : ParseAgg vname sfield = some (.INVALID, sfield) ↔ ¬ ∃ op f, IsAgg op f vname

theorem aggWords_ne_INVALID {word : String} {op : AggOper} (h : (word, op) ∈ aggWords) :
    op ≠ .INVALID := by
  rintro rfl
  revert h
  simp [aggWords]

/-- The name starts with one of the operator words. -/
def startsWithWord (vname : String) : Prop :=
  ∃ w ∈ aggWords, w.1.toList.isPrefixOf vname.toList = true

theorem ParseAgg_none {vname : String} (h : ¬ startsWithWord vname) (sfield : String) :
    ParseAgg vname sfield = some (.INVALID, sfield) := by
  have hfind : aggWords.find? (fun w => w.1.toList.isPrefixOf vname.toList) = none :=
    List.find?_eq_none.mpr fun w hw hp => h ⟨w, hw, hp⟩
  rw [ParseAgg, hfind]

/-- A name that starts with a word is cut at that word, wherever it goes on. -/
theorem ParseAgg_word {vname : String} (h : startsWithWord vname) (sfield : String) :
    ∃ word op, (word, op) ∈ aggWords ∧
      ParseAgg vname sfield = (aggField vname (word.length + 1)).map fun f => (op, f) := by
  obtain ⟨w, hw, hp⟩ := h
  have hsome : (aggWords.find? fun w => w.1.toList.isPrefixOf vname.toList).isSome = true :=
    List.find?_isSome.mpr ⟨w, hw, hp⟩
  obtain ⟨⟨word, op⟩, hfind⟩ := Option.isSome_iff_exists.mp hsome
  refine ⟨word, op, List.mem_of_find?_eq_some hfind, ?_⟩
  rw [ParseAgg, hfind]

theorem isPrefixOf_word {word f : String} :
    word.toList.isPrefixOf (word ++ "(" ++ f ++ ")").toList = true := by
  simp [List.isPrefixOf_iff_prefix, List.append_assoc]

/-- `COUNT` is the only word that starts another one, and `(` ends a word. -/
theorem find_word {word : String} {op : AggOper} (h : (word, op) ∈ aggWords) (f : String) :
    aggWords.find? (fun w => w.1.toList.isPrefixOf (word ++ "(" ++ f ++ ")").toList) =
      some (word, op) := by
  simp only [aggWords, List.mem_cons, Prod.mk.injEq, List.not_mem_nil, or_false] at h
  rcases h with ⟨rfl, rfl⟩ | ⟨rfl, rfl⟩ | ⟨rfl, rfl⟩ | ⟨rfl, rfl⟩ | ⟨rfl, rfl⟩ | ⟨rfl, rfl⟩ |
    ⟨rfl, rfl⟩ | ⟨rfl, rfl⟩ <;>
    simp [aggWords, List.find?, List.isPrefixOf]

theorem aggField_word (word f : String) :
    aggField (word ++ "(" ++ f ++ ")") (word.length + 1) = some f := by
  have hdrop : (word ++ "(" ++ f ++ ")").toList.drop (word.length + 1) = f.toList ++ [')'] := by
    simp [List.drop_append, ← String.length_toList]
  have hlen : word.length + 1 < (word ++ "(" ++ f ++ ")").toList.length := by
    simp [← String.length_toList]
  rw [aggField, if_pos hlen, hdrop, List.dropLast_concat, String.ofList_toList]

/-- `OP(f)` is read as written. -/
theorem ParseAgg_isAgg {op : AggOper} {f vname : String} (h : IsAgg op f vname)
    (sfield : String) : ParseAgg vname sfield = some (op, f) := by
  obtain ⟨word, hw, -, rfl⟩ := h
  rw [ParseAgg, find_word hw f]
  show (aggField _ (word.length + 1)).map _ = _
  rw [aggField_word]
  rfl

theorem IsAgg.unique {op op' : AggOper} {f f' vname : String} (h : IsAgg op f vname)
    (h' : IsAgg op' f' vname) : op = op' ∧ f = f' := by
  have heq := (ParseAgg_isAgg h "").symm.trans (ParseAgg_isAgg h' "")
  simpa using heq

theorem parsedByGrammar_iff (vname sfield : String) :
    ParsedByGrammar vname sfield ↔
      ¬ startsWithWord vname ∨ ∃ op f, IsAgg op f vname := by
  constructor
  · intro h
    by_cases hword : startsWithWord vname
    · obtain ⟨word, op, hmem, hparse⟩ := ParseAgg_word hword sfield
      cases hf : aggField vname (word.length + 1) with
      | none => exact absurd (by rw [hparse, hf]; rfl) h.returns
      | some f =>
        rw [hf] at hparse
        exact .inr ⟨op, f, (h.operator op f (aggWords_ne_INVALID hmem)).mp hparse⟩
    · exact .inl hword
  · rintro (hword | ⟨op, f, hagg⟩)
    · have hparse := ParseAgg_none hword sfield
      have hnone : ¬ ∃ op f, IsAgg op f vname := by
        rintro ⟨op, f, word, hw, -, rfl⟩
        exact hword ⟨_, hw, isPrefixOf_word⟩
      refine ⟨by simp [hparse], fun op f hop => ?_, by simp [hparse, hnone]⟩
      constructor
      · intro heq
        rw [hparse] at heq
        simp only [Option.some.injEq, Prod.mk.injEq] at heq
        exact absurd heq.1.symm hop
      · intro hagg
        exact absurd ⟨op, f, hagg⟩ hnone
    · have hparse := ParseAgg_isAgg hagg sfield
      refine ⟨by simp [hparse], fun op' f' _ => ?_, ?_⟩
      · constructor
        · intro heq
          rw [hparse] at heq
          simp only [Option.some.injEq, Prod.mk.injEq] at heq
          obtain ⟨rfl, rfl⟩ := heq
          exact hagg
        · intro hagg'
          obtain ⟨rfl, rfl⟩ := hagg.unique hagg'
          exact hparse
      · constructor
        · intro heq
          rw [hparse] at heq
          simp only [Option.some.injEq, Prod.mk.injEq] at heq
          obtain ⟨word, hw, -⟩ := hagg
          exact absurd heq.1 (aggWords_ne_INVALID hw)
        · intro hnone
          exact absurd ⟨op, f, hagg⟩ hnone

/-- An attribute `SUMMARY` is read as `SUM(AR)`, and one named `MAX` throws. -/
theorem not_parsedByGrammar_SUMMARY :
    ¬ ParsedByGrammar "SUMMARY" "SUMMARY" ∧ ¬ ParsedByGrammar "MAX" "MAX" := by
  constructor
  · intro h
    have hparse : ParseAgg "SUMMARY" "SUMMARY" = some (.SUM, "AR") := by decide +kernel
    obtain ⟨word, hw, -, heq⟩ := (h.operator .SUM "AR" (by decide)).mp hparse
    have hword : word = "SUM" := by simpa [aggWords] using hw
    subst hword
    exact absurd heq (by decide)
  · intro h
    exact h.returns (by decide +kernel)

-- ---------------------------------------------------------------------------
-- StatsSelect
-- ---------------------------------------------------------------------------

structure StatsSelect where
  status_ : Bool
  ts_period_ : Fin (2 ^ 64)
  isT_ : Bool
  count_field_ : String
  count_distinct_field_ : String
  sort_cols_ : OrderedMap String Nat
  agg_sort_cols_ : OrderedMap AggKey Nat
  unik_cols_ : StringSet
  sum_cols_ : StringSet
  class_cols_ : StringSet
  max_field_ : StringSet
  min_field_ : StringSet
  avg_field_ : StringSet
  percentile_cols_ : StringSet

namespace StatsSelect

def blankSelect : StatsSelect :=
  { status_ := false, ts_period_ := 0, isT_ := false, count_field_ := "",
    count_distinct_field_ := "", sort_cols_ := .empty, agg_sort_cols_ := .empty,
    unik_cols_ := .empty, sum_cols_ := .empty, class_cols_ := .empty, max_field_ := .empty,
    min_field_ := .empty, avg_field_ := .empty, percentile_cols_ := .empty }

/-- The number the leading digits spell. -/
def digitsValue (s : List Char) : Nat :=
  (s.takeWhile Char.isDigit).foldl (fun n c => 10 * n + (c.toNat - '0'.toNat)) 0

/-- `strtoul(s, NULL, 10)`: blanks, a sign, digits; `ULONG_MAX` when the digits
do not fit, and a minus sign negates modulo `2^64`. -/
def strtoul (s : List Char) : Nat :=
  match s.dropWhile Char.isWhitespace with
  | '-' :: rest =>
    if digitsValue rest < 2 ^ 64 then (2 ^ 64 - digitsValue rest) % 2 ^ 64 else 2 ^ 64 - 1
  | '+' :: rest => min (digitsValue rest) (2 ^ 64 - 1)
  | rest => min (digitsValue rest) (2 ^ 64 - 1)

/-- One iteration of the constructor's loop; `none` inside is the early
`return` that leaves `status_` false. -/
def addField (S : StatsSelect) (field : String) : Option (Option StatsSelect) :=
  if field = STAT_TIME_FIELD then
    if S.ts_period_ ≠ 0 then some none
    else some (some { S with isT_ := true, sort_cols_ := S.sort_cols_.insert field 0 })
  else if STAT_TIMEBIN_FIELD.toList.isPrefixOf field.toList then
    if S.isT_ then some none
    else
      let period : Fin (2 ^ 64) :=
        Fin.ofNat (2 ^ 64) (strtoul (field.toList.drop STAT_TIMEBIN_FIELD.length) * 1000000)
      if period = 0 then some none
      else some (some { S with
        ts_period_ := period, sort_cols_ := S.sort_cols_.insert STAT_TIMEBIN_FIELD 0 })
  else do
    let (agg, sfield) ← ParseAgg field field
    match agg with
    | .INVALID => some (some { S with unik_cols_ := S.unik_cols_.insert field () })
    | .COUNT => some (some { S with count_field_ := sfield })
    | .COUNT_DISTINCT => some (some { S with
        count_distinct_field_ := sfield, unik_cols_ := S.unik_cols_.insert sfield () })
    | .SUM => some (some { S with sum_cols_ := S.sum_cols_.insert sfield () })
    | .CLASS => some (some { S with class_cols_ := S.class_cols_.insert sfield () })
    | .MAX => some (some { S with max_field_ := S.max_field_.insert sfield () })
    | .MIN => some (some { S with min_field_ := S.min_field_.insert sfield () })
    | .PERCENTILES => some (some { S with
        percentile_cols_ := S.percentile_cols_.insert sfield () })
    | .AVG => some (some { S with avg_field_ := S.avg_field_.insert sfield () })

def addFields (S : StatsSelect) : List String → Option StatsSelect
  | [] => some { S with status_ := true }
  | field :: rest =>
    match addField S field with
    | none => none
    | some none => some S
    | some (some S') => addFields S' rest

/-- The constructor. -/
def ofSelect (select_fields : List String) : Option StatsSelect :=
  addFields blankSelect select_fields

/-- The loop of `SetSortOrder`. `known sfield` is false when the table is a
static stat table without that column. -/
def setSortFields (known : String → Bool) (S : StatsSelect) (st : Nat) :
    List String → Option StatsSelect
  | [] => some S
  | name :: rest =>
    if STAT_TIMEBIN_FIELD.toList.isPrefixOf name.toList then
      setSortFields known
        { S with sort_cols_ := S.sort_cols_.insert STAT_TIMEBIN_FIELD st } (st + 1) rest
    else if name = STAT_TIME_FIELD then
      setSortFields known { S with sort_cols_ := S.sort_cols_.insert name st } (st + 1) rest
    else
      match ParseAgg name name with
      | none => none
      | some (agg, sfield) =>
        if known sfield = false then some S
        else if agg = .INVALID then
          setSortFields known { S with sort_cols_ := S.sort_cols_.insert name st } (st + 1) rest
        else
          setSortFields known
            { S with agg_sort_cols_ := S.agg_sort_cols_.insert (aggkey agg sfield) st }
            (st + 1) rest

def SetSortOrder (known : String → Bool) (S : StatsSelect) (sort_fields : List String) :
    Option StatsSelect :=
  setSortFields known
    (if sort_fields.length ≠ 0 then { S with sort_cols_ := .empty } else S) 0 sort_fields

/-- The SELECT and SORT lists of a query. -/
def build (known : String → Bool) (select_fields sort_fields : List String) :
    Option StatsSelect :=
  (ofSelect select_fields).bind fun S => SetSortOrder known S sort_fields

/-- A select field other than `T` and `T=` enters a column or an aggregate. -/
structure AddsColumn (S S' : StatsSelect) : Prop where
  status : S'.status_ = S.status_
  isT : S'.isT_ = S.isT_
  ts_period : S'.ts_period_ = S.ts_period_
  sort_cols : S'.sort_cols_ = S.sort_cols_
  agg_sort_cols : S'.agg_sort_cols_ = S.agg_sort_cols_
  unik : ∀ n, S.unik_cols_.has n = true → S'.unik_cols_.has n = true

/-- What an iteration of the constructor's loop can do. -/
theorem addField_cases {S S' : StatsSelect} {field : String}
    (h : addField S field = some (some S')) :
    (field = STAT_TIME_FIELD ∧ S.ts_period_ = 0 ∧
      S' = { S with isT_ := true, sort_cols_ := S.sort_cols_.insert field 0 }) ∨
    (field ≠ STAT_TIME_FIELD ∧ S.isT_ = false ∧ ∃ period, period ≠ 0 ∧
      S' = { S with
        ts_period_ := period, sort_cols_ := S.sort_cols_.insert STAT_TIMEBIN_FIELD 0 }) ∨
    (field ≠ STAT_TIME_FIELD ∧ AddsColumn S S') := by
  unfold addField at h
  split at h
  · rename_i hfield
    split at h
    · cases h
    · rename_i hts
      exact .inl ⟨hfield, not_not.mp hts, (Option.some.inj (Option.some.inj h)).symm⟩
  · rename_i hfield
    split at h
    · split at h
      · cases h
      · rename_i hisT
        simp only at h
        split at h
        · cases h
        · rename_i hperiod
          exact .inr (.inl ⟨hfield, by simpa using hisT, _, hperiod,
            (Option.some.inj (Option.some.inj h)).symm⟩)
    · refine .inr (.inr ⟨hfield, ?_⟩)
      obtain ⟨⟨agg, sfield⟩, -, h⟩ := Option.bind_eq_some_iff.mp h
      cases agg with
      | INVALID | COUNT_DISTINCT =>
        obtain rfl := Option.some.inj (Option.some.inj h)
        exact ⟨rfl, rfl, rfl, rfl, rfl, fun n hn => (StringSet.has_insert _ _ n).mpr (.inl hn)⟩
      | SUM | COUNT | CLASS | MAX | MIN | PERCENTILES | AVG =>
        obtain rfl := Option.some.inj (Option.some.inj h)
        exact ⟨rfl, rfl, rfl, rfl, rfl, fun _ hn => hn⟩

/-- The run rule of the constructor. -/
theorem addFields_invariant {P : StatsSelect → Prop}
    (hstep : ∀ S S' field, P S → addField S field = some (some S') → P S')
    (hdone : ∀ S, P S → P { S with status_ := true }) {fields : List String}
    {S S' : StatsSelect} (hS : P S) (h : addFields S fields = some S') : P S' := by
  induction fields generalizing S with
  | nil =>
    obtain rfl := Option.some.inj h
    exact hdone S hS
  | cons field fields ih =>
    rw [addFields] at h
    split at h
    · cases h
    · obtain rfl := Option.some.inj h
      exact hS
    · rename_i S₁ hone
      exact ih (hstep S S₁ field hS hone) h

/-- The run rule of `SetSortOrder`: a sort field enters a column or an aggregate under
its position, or ends the loop. -/
theorem setSortFields_invariant {P : StatsSelect → Nat → Prop}
    (hcol : ∀ S st name, P S st →
      P { S with sort_cols_ := S.sort_cols_.insert name st } (st + 1))
    (hagg : ∀ S st k, P S st →
      P { S with agg_sort_cols_ := S.agg_sort_cols_.insert k st } (st + 1))
    {known : String → Bool} {names : List String} {S S' : StatsSelect} {st : Nat} (hS : P S st)
    (h : setSortFields known S st names = some S') : ∃ st', P S' st' := by
  induction names generalizing S st with
  | nil =>
    obtain rfl := Option.some.inj h
    exact ⟨st, hS⟩
  | cons name names ih =>
    rw [setSortFields] at h
    split at h
    · exact ih (hcol S st _ hS) h
    · split at h
      · exact ih (hcol S st _ hS) h
      · split at h
        · cases h
        · split at h
          · obtain rfl := Option.some.inj h
            exact ⟨st, hS⟩
          · split at h
            · exact ih (hcol S st _ hS) h
            · exact ih (hagg S st _ hS) h

/-- `SetSortOrder` changes the sort columns alone. -/
theorem setSortFields_keeps {known : String → Bool} {names : List String} {S S' : StatsSelect}
    {st : Nat} (h : setSortFields known S st names = some S') :
    S'.status_ = S.status_ ∧ S'.isT_ = S.isT_ ∧ S'.unik_cols_ = S.unik_cols_ := by
  obtain ⟨-, hkeeps⟩ := setSortFields_invariant
    (P := fun S' _ => S'.status_ = S.status_ ∧ S'.isT_ = S.isT_ ∧ S'.unik_cols_ = S.unik_cols_)
    (fun _ _ _ hP => hP) (fun _ _ _ hP => hP) ⟨rfl, rfl, rfl⟩ h
  exact hkeeps

/-- The last slot of a key, reserved for the hash. -/
def hash_slot (S : StatsSelect) : Nat := S.sort_cols_.size + S.agg_sort_cols_.size

-- ---------------------------------------------------------------------------
-- MergeAggRow, MergeFullRow
-- ---------------------------------------------------------------------------

section Merging

variable {δ : Type} [LinearOrder δ] [Numerics δ]

/-- `MAX` keeps the existing value only when it is greater. -/
def pickMax {α : Type} [LinearOrder α] (a b : α) : α := if b < a then a else b

/-- `MIN` keeps the existing value only when it is less. -/
def pickMin {α : Type} [LinearOrder α] (a b : α) : α := if a < b then a else b

/-- A binary operation on two `uint64_t` or two `double`s. A left value of
another type is left alone, another type on the right is a `bad_get`. -/
def numericOp (fu : Fin (2 ^ 64) → Fin (2 ^ 64) → Fin (2 ^ 64)) (fd : δ → δ → δ) :
    StatVal δ → StatVal δ → Option (StatVal δ)
  | .uint64 a, .uint64 b => some (.uint64 (fu a b))
  | .uint64 _, _ => none
  | .double a, .double b => some (.double (fd a b))
  | .double _, _ => none
  | sv, _ => some sv

/-- How `MergeAggRow` combines the existing value with the new one. -/
def mergeVal : AggOper → StatVal δ → StatVal δ → Option (StatVal δ)
  | .SUM, sv, nv => numericOp (· + ·) Numerics.add sv nv
  | .MAX, sv, nv => numericOp pickMax pickMax sv nv
  | .MIN, sv, nv => numericOp pickMin pickMin sv nv
  | .COUNT, .uint64 a, .uint64 b => some (.uint64 (a + b))
  | .COUNT, _, _ => none
  | .COUNT_DISTINCT, .uint64 a, .uint64 b => some (.uint64 (a + b))
  | .COUNT_DISTINCT, _, _ => none
  | .AVG, .centroid pt, .centroid pt2 =>
    some (.centroid (pt ++ [toLex (Numerics.mean pt2, (pt2.map fun c => (ofLex c).2).sum)]))
  | .AVG, .centroid _, _ => none
  | .PERCENTILES, .tdigest pt, .tdigest pt2 => some (.tdigest (pt ++ Numerics.centroids pt2))
  | .PERCENTILES, .tdigest _, _ => none
  | _, sv, _ => some sv

def MergeAggRow (arows narows : AggRow δ) : Option (AggRow δ) :=
  if arows.isEmpty then some narows
  else arows.mapM fun k sv =>
    match narows.find? k with
    | none => some sv
    | some nv => mergeVal k.oper sv nv

def sameUniks (e e' : StatMap δ × AggRow δ) : Bool := e.1 = e'.1

def mergeAggs (e e' : StatMap δ × AggRow δ) : Option (StatMap δ × AggRow δ) :=
  (MergeAggRow e.2 e'.2).map fun arows => (e.1, arows)

def MergeFullRow (ukey : SortKey δ) (uniks : StatMap δ) (narows : AggRow δ) (output : MapBuf δ) :
    Option (MapBuf δ) :=
  output.mergeEntry sameUniks mergeAggs ukey (uniks, narows)

end Merging

-- ---------------------------------------------------------------------------
-- LoadRow
-- ---------------------------------------------------------------------------

section Loading

variable {δ : Type} [LinearOrder δ] [Numerics δ] (hash_range : StatMap δ → Fin (2 ^ 64))

/-- The pairs `LoadRow` inserts into `uniks`, in its order. -/
def unikPairs (S : StatsSelect) (s : Sample δ) : List (String × StatVal δ) :=
  (if S.unik_cols_.has STAT_UUID_FIELD then [(STAT_UUID_FIELD, .uuid s.u)] else []) ++
  (if S.isT_ then [(STAT_TIME_FIELD, .uint64 s.timestamp)] else []) ++
  (if S.ts_period_ ≠ 0 then
    [(STAT_TIMEBIN_FIELD, .uint64 (s.timestamp - s.timestamp % S.ts_period_))] else []) ++
  (s.row.filter fun it => S.unik_cols_.has it.name).map fun it => (it.name, it.value)

/-- The group of a row. -/
def buildUniks (S : StatsSelect) (s : Sample δ) : StatMap δ := .ofList (unikPairs S s)

/-- Write the value of each sort column into its slot. -/
def fillSlots {κ : Type} (lookup : κ → Option (StatVal δ)) :
    List (κ × Nat) → SortKey δ → Option (SortKey δ)
  | [], ukey => some ukey
  | (col, slot) :: rest, ukey =>
    match lookup col with
    | none => none
    | some v => if slot < ukey.length then fillSlots lookup rest (ukey.set slot v) else none

/-- The key with blank sort slots and the hash in the last one. -/
def freshKey (S : StatsSelect) (uniks : StatMap δ) : SortKey δ :=
  List.replicate S.hash_slot .blank ++ [.uint64 (hash_range uniks)]

def buildKey (S : StatsSelect) (uniks : StatMap δ) : Option (SortKey δ) :=
  fillSlots uniks.find? S.sort_cols_.entries (freshKey hash_range S uniks)

/-- The `double` that `AVG` and `PERCENTILES` take from a value. -/
def asDouble : StatVal δ → Option δ
  | .uint64 n => some (Numerics.ofUInt64 n)
  | .double d => some d
  | _ => none

/-- The pair for an aggregate that starts from a `double`; other values are a
`bad_get`. -/
def doublePair (has : Bool) (op : AggOper) (start : δ → StatVal δ) (it : StatEntry δ) :
    Option (List (AggKey × StatVal δ)) :=
  if has then (asDouble it.value).map fun d => [(aggkey op it.name, start d)] else some []

/-- What the second pass over the row inserts for one entry. -/
def otherAggs (S : StatsSelect) (it : StatEntry δ) : Option (List (AggKey × StatVal δ)) := do
  let avg ← doublePair (S.avg_field_.has it.name) .AVG (fun d => .centroid [toLex (d, 1)]) it
  let percentiles ←
    doublePair (S.percentile_cols_.has it.name) .PERCENTILES (fun d => .tdigest [toLex (d, 1)]) it
  some ((if S.max_field_.has it.name then [(aggkey .MAX it.name, it.value)] else []) ++
    (if S.min_field_.has it.name then [(aggkey .MIN it.name, it.value)] else []) ++
    avg ++ percentiles)

/-- What the CLASS hash of column `ct` is taken of. -/
def buildHuniks (uniks : StatMap δ) (ct : String) (row : List (StatEntry δ)) : StatMap δ :=
  row.foldl
    (fun huniks rit =>
      if rit.name ≠ ct ∧ (uniks.find? rit.name).isSome then huniks.assign rit.name rit.value
      else huniks)
    .empty

/-- The aggregates a row contributes to its group, from the pairs `LoadRow`
inserts into `narows` in its order. -/
def buildAggs (S : StatsSelect) (uniks : StatMap δ) (row : List (StatEntry δ)) :
    Option (AggRow δ) := do
  let sums := (row.filter fun it => S.sum_cols_.has it.name).map
    fun it => (aggkey .SUM it.name, it.value)
  let others ← collectM (otherAggs S) row
  let classes := S.class_cols_.entries.map
    fun ct => (aggkey .CLASS ct.1, .uint64 (hash_range (buildHuniks uniks ct.1 row)))
  let count := if S.count_field_ ≠ "" then [(aggkey .COUNT S.count_field_, .uint64 1)] else []
  some (.ofList (sums ++ others ++ classes ++ count))

def LoadRow (S : StatsSelect) (s : Sample δ) (output : MapBuf δ) : Option (MapBuf δ) :=
  if S.status_ = false then some output
  else do
    let uniks := buildUniks S s
    let ukey ← buildKey hash_range S uniks
    let narows ← buildAggs hash_range S uniks s.row
    MergeFullRow ukey uniks narows output

/-- The rows of one chunk, loaded into an empty multimap. -/
def loadChunk (S : StatsSelect) (rows : List (Sample δ)) : Option (MapBuf δ) :=
  rows.foldlM (fun output s => LoadRow hash_range S s output) .empty

-- ---------------------------------------------------------------------------
-- Merge, MergeFinal
-- ---------------------------------------------------------------------------

/-- What `Merge` does to an entry that carries the column whose values are
counted: the column becomes a count of one and the hash is taken anew. -/
def dropDistinct (field : String) (e : SortKey δ × (StatMap δ × AggRow δ)) :
    SortKey δ × (StatMap δ × AggRow δ) :=
  match e.2.1.find? field with
  | none => e
  | some _ =>
    let uniks := e.2.1.erase field
    (e.1.set (e.1.length - 1) (.uint64 (hash_range uniks)),
      (uniks, e.2.2.insert (aggkey .COUNT_DISTINCT field) (.uint64 1)))

def mergeEntries (field : String) (es : List (SortKey δ × (StatMap δ × AggRow δ)))
    (output : MapBuf δ) : Option (MapBuf δ) :=
  es.foldlM
    (fun out e =>
      let e' := dropDistinct hash_range field e
      MergeFullRow e'.1 e'.2.1 e'.2.2 out)
    output

def Merge (field : String) (input output : MapBuf δ) : Option (MapBuf δ) :=
  mergeEntries hash_range field input.entries output

/-- Merge all inputs, one after the other. -/
def mergeInputs (field : String) (inputs : List (MapBuf δ)) (output : MapBuf δ) :
    Option (MapBuf δ) :=
  inputs.foldlM (fun out input => Merge hash_range field input out) output

/-- The second loop of `MergeFinal`: aggregates go into their slots. -/
def rekeyEntries (S : StatsSelect) (es : List (SortKey δ × (StatMap δ × AggRow δ)))
    (output : MapBuf δ) : Option (MapBuf δ) :=
  es.foldlM
    (fun out e => do
      let ukey ← fillSlots e.2.2.find? S.agg_sort_cols_.entries e.1
      MergeFullRow ukey e.2.1 e.2.2 out)
    output

def MergeFinal (S : StatsSelect) (inputs : List (MapBuf δ)) : Option (MapBuf δ) := do
  let merged ← mergeInputs hash_range S.count_distinct_field_ inputs .empty
  if S.agg_sort_cols_.isEmpty then some merged else rekeyEntries S merged.entries .empty

-- ---------------------------------------------------------------------------
-- A whole query
-- ---------------------------------------------------------------------------

/-- `PostProcessingQuery::process_query` and `QueryFinalMerge` cut a multimap
to `limit` entries; a limit of 0 is no limit. -/
def applyLimit (limit : Nat) (m : MapBuf δ) : MapBuf δ :=
  if limit ≠ 0 then m.truncate limit else m

/-- The limit `process_query` applies to a chunk. A parallelized flow series
query is only cut at the end. -/
def processQueryLimit (table : String) (is_query_parallelized : Bool) (limit : Nat) : Nat :=
  if table ≠ FLOW_SERIES_TABLE ∨ is_query_parallelized = false then limit else 0

/-- One instance of a query whose results are merged: load each of its chunks, cut
it, and merge it into the instance's result, as `QueryExec` does. -/
def runInstance (S : StatsSelect) (limit : Nat) (chunks : List (List (Sample δ))) :
    Option (MapBuf δ) :=
  chunks.foldlM
    (fun out rows => do
      let chunk ← loadChunk hash_range S rows
      Merge hash_range "" (applyLimit limit chunk) out)
    .empty

/-- All instances of such a query (one without `T`), then the final merge, with
`chunkLimit` applied to each chunk and `limit` to the result. A plan lists the
chunks of each instance in the order the instance claimed them. -/
def runQuery (S : StatsSelect) (chunkLimit limit : Nat) (plan : List (List (List (Sample δ)))) :
    Option (MapBuf δ) := do
  let results ← plan.mapM (runInstance hash_range S chunkLimit)
  let final ← MergeFinal hash_range S results
  some (applyLimit limit final)

/-- All rows in one chunk of one instance, no limits. -/
def aggregateAtOnce (S : StatsSelect) (rows : List (Sample δ)) : Option (MapBuf δ) :=
  runQuery hash_range S 0 0 [[rows]]

end Loading

end StatsSelect

end TfAnalytics.QueryEngine
