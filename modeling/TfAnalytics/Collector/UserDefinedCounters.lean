import Mathlib.Data.List.TakeWhile
import Mathlib.Data.String.Basic
import TfAnalytics.Lib.OrderedMap

/-!
# Collector — user-defined counters

`UserDefinedCounters` (usrdef_counters.cc) keeps the patterns that are configured for log
messages. `UDCHandler` takes over what a changed `global_system_config` lists: every entry is
added or refreshed, and then the counters that were not refreshed go. A getter that clears
the flag it reads, `IsRefreshed`, makes this a mark and sweep whose marks are all off between
two calls.

* `sweep_find?`: what is left of a map after the sweep;
* `addEntries_spec`: the marks and the patterns after the list has been read;
* `UDCHandler_spec`: one call;
* `allMirror_iff`: every call of a run mirrors its document.

`HasMember` and `GetString` assert the type of the value, and `boost::regex` throws for a
pattern that it cannot read; no caller catches it. Both are `none` here. `regex` is a parameter.
-/

namespace TfAnalytics.Collector

open TfAnalytics.Lib

-- ---------------------------------------------------------------------------
-- Documents
-- ---------------------------------------------------------------------------

/-- The text up to its first NUL. -/
def c_str (s : String) : String := String.ofList (s.toList.takeWhile (· ≠ '\x00'))

theorem c_str_nul (s : String) : '\x00' ∉ (c_str s).toList := by
  rw [c_str, String.toList_ofList]
  intro hmem
  simpa using List.mem_takeWhile_imp hmem

theorem c_str_eq_iff {s : String} : c_str s = s ↔ '\x00' ∉ s.toList := by
  refine ⟨fun h => h ▸ c_str_nul s, fun h => ?_⟩
  have htext : s.toList.takeWhile (· ≠ '\x00') = s.toList := by
    rw [List.takeWhile_eq_self_iff]
    intro c hc
    exact decide_eq_true fun heq => h (heq ▸ hc)
  rw [c_str, htext, String.ofList_toList]

/-- A value of rapidjson. No number is ever read here. -/
inductive Json where
  | null
  | bool (value : Bool)
  | number (value : Int)
  | string (value : String)
  | array (elems : List Json)
  | object (members : List (String × Json))

namespace Json

def IsObject : Json → Bool
  | .object _ => true
  | _ => false

/-- `HasMember`, which asserts `IsObject()`. -/
def HasMember (name : String) : Json → Option Bool
  | .object members => some (members.any fun m => m.1 = name)
  | _ => none

/-- `operator[]`: the first member of that name. -/
def get (name : String) : Json → Option Json
  | .object members => members.lookup name
  | _ => none

/-- `GetString`, taken as a `std::string`: it ends at the first NUL. -/
def GetString : Json → Option String
  | .string value => some (c_str value)
  | _ => none

theorem hasMember_of_isObject {v : Json} (h : v.IsObject = true) (name : String) :
    v.HasMember name = some (v.get name).isSome := by
  cases v with
  | object members =>
    show some (members.any fun m => m.1 = name) = some (members.lookup name).isSome
    congr 1
    induction members with
    | nil => rfl
    | cons m rest ih =>
      obtain ⟨key, value⟩ := m
      by_cases hkey : key = name
      · subst hkey
        simp
      · have hne : (name == key) = false := by simpa using fun h => hkey h.symm
        rw [List.any_cons, List.lookup_cons, hne, ih rfl]
        simp [hkey]
  | _ => cases h

theorem hasMember_of_not_isObject {v : Json} (h : v.IsObject = false) (name : String) :
    v.HasMember name = none := by
  cases v with
  | object members => cases h
  | _ => rfl

theorem isObject_of_get {v w : Json} {name : String} (h : v.get name = some w) :
    v.IsObject = true := by
  cases v with
  | object members => rfl
  | _ => cases h

end Json

-- ---------------------------------------------------------------------------
-- The counters
-- ---------------------------------------------------------------------------

/-- A counter; `R` are compiled patterns. -/
structure UserDefinedCounterData (R : Type) where
  refreshed_ : Bool
  name_ : String
  regexp_str_ : String
  regexp_ : R

abbrev Cfg_t (R : Type) := OrderedMap String (UserDefinedCounterData R)

/-- What is sent about a counter. -/
structure UserDefinedLogStatistic where
  name : String
  deleted : Bool
  deriving DecidableEq

variable {R : Type}

namespace UserDefinedCounterData

/-- The flag as it was, and the counter with the flag cleared. -/
def IsRefreshed (c : UserDefinedCounterData R) : Bool × UserDefinedCounterData R :=
  (c.refreshed_, { c with refreshed_ := false })

def Refresh (c : UserDefinedCounterData R) : UserDefinedCounterData R := { c with refreshed_ := true }

def SetPattern (regex : String → Option R) (c : UserDefinedCounterData R) (pat : String) :
    Option (UserDefinedCounterData R) :=
  (regex pat).map fun regexp => { c with regexp_ := regexp, regexp_str_ := pat }

/-- The constructor. -/
def create (regex : String → Option R) (name pat : String) : Option (UserDefinedCounterData R) :=
  (regex pat).map fun regexp => ⟨true, name, pat, regexp⟩

end UserDefinedCounterData

namespace UserDefinedCounters

variable (regex : String → Option R)

def AddConfig (config_ : Cfg_t R) (name pattern : String) : Option (Cfg_t R) :=
  match config_.find? name with
  | some c => do
    let c ← if pattern = c.regexp_str_ then some c else c.SetPattern regex pattern
    some (config_.assign name c.Refresh)
  | none => (UserDefinedCounterData.create regex name pattern).map fun c => config_.insert name c

/-- One turn of the loop over `statlist`. -/
def addEntry (config_ : Cfg_t R) (entry : Json) : Option (Cfg_t R) :=
  if !entry.IsObject then some config_
  else do
    let hasName ← entry.HasMember "name"
    if !hasName then return config_
    let hasPattern ← entry.HasMember "pattern"
    if !hasPattern then return config_
    let name ← (← entry.get "name").GetString
    let patrn ← (← entry.get "pattern").GetString
    AddConfig regex config_ name patrn

/-- The loop that erases what was not refreshed, with what it sends. -/
def sweep (config_ : Cfg_t R) : Cfg_t R × List UserDefinedLogStatistic :=
  (config_.filterMapValues fun c => if c.IsRefreshed.1 then some c.IsRefreshed.2 else none,
    (config_.entries.filter fun e => !e.2.IsRefreshed.1).map fun e => ⟨e.1, true⟩)

/-- The counters after the call, and what it has sent. -/
def UDCHandler (config_ : Cfg_t R) (jdoc : Json) (add_change : Bool) :
    Option (Cfg_t R × List UserDefinedLogStatistic) :=
  if !add_change then some (config_, [])
  else if !jdoc.IsObject then some (config_, [])
  else do
    let hasConfig ← jdoc.HasMember "global_system_config"
    if !hasConfig then return (config_, [])
    let config ← jdoc.get "global_system_config"
    let hasStatistics ← config.HasMember "user_defined_log_statistics"
    if !hasStatistics then return sweep config_
    let statistics ← config.get "user_defined_log_statistics"
    if !statistics.IsObject then return (config_, [])
    let hasStatlist ← statistics.HasMember "statlist"
    if !hasStatlist then return (config_, [])
    let gsc ← statistics.get "statlist"
    match gsc with
    | .array elems => do
      let refreshed ← elems.foldlM (addEntry regex) config_
      return sweep refreshed
    | _ => return (config_, [])

-- ---------------------------------------------------------------------------
-- What the documents say
-- ---------------------------------------------------------------------------

/-- The document carries a `statlist` array. -/
def CarriesStatlist (jdoc : Json) (elems : List Json) : Prop :=
  ∃ config statistics, jdoc.get "global_system_config" = some config ∧
    config.get "user_defined_log_statistics" = some statistics ∧
    statistics.get "statlist" = some (.array elems)

/-- The document has a `global_system_config` without `user_defined_log_statistics`. -/
def WithoutStatistics (jdoc : Json) : Prop :=
  ∃ config, jdoc.get "global_system_config" = some config ∧ config.IsObject = true ∧
    config.get "user_defined_log_statistics" = none

/-- The name and the pattern of an entry, whatever they are. -/
def named (entry : Json) : Option (Json × Json) :=
  match entry.get "name", entry.get "pattern" with
  | some name, some pattern => some (name, pattern)
  | _, _ => none

/-- A well-formed entry: the name and the pattern are texts. -/
def wellFormed (entry : Json) : Option (String × String) :=
  match named entry with
  | some (.string name, .string pattern) => some (name, pattern)
  | _ => none

/-- The value of the last pair with that name. -/
def last (pairs : List (String × String)) (name : String) : Option String :=
  ((pairs.filter fun p => p.1 = name).getLast?).map Prod.snd

variable {regex}

/-- The counters are under their names, and their patterns are compiled. -/
structure Faithful (regex : String → Option R) (config_ : Cfg_t R) : Prop where
  names : ∀ name c, config_.find? name = some c → c.name_ = name
  compiled : ∀ name c, config_.find? name = some c → regex c.regexp_str_ = some c.regexp_

/-- Between two calls no counter is marked. -/
structure Settled (regex : String → Option R) (config_ : Cfg_t R) : Prop
    extends Faithful regex config_ where
  unmarked : ∀ name c, config_.find? name = some c → c.refreshed_ = false

/-- A call mirrors its document: `config_'` and `sent` are what it leaves behind. -/
structure Mirrors (regex : String → Option R) (config_ : Cfg_t R) (jdoc : Json) (add_change : Bool)
    (config_' : Cfg_t R) (sent : List UserDefinedLogStatistic) : Prop where
  listed : add_change = true → ∀ elems, CarriesStatlist jdoc elems →
    ∀ name, (config_'.find? name).map (·.regexp_str_) = last (elems.filterMap wellFormed) name
  cleared : add_change = true → WithoutStatistics jdoc → config_' = OrderedMap.empty
  unchanged : ¬ (add_change = true ∧ ((∃ elems, CarriesStatlist jdoc elems) ∨ WithoutStatistics jdoc)) →
    config_' = config_
  removed : ∀ u, u ∈ sent ↔
    u.deleted = true ∧ (config_.find? u.name).isSome ∧ config_'.find? u.name = none
  once : sent.Nodup
  faithful : Faithful regex config_'

/-- The entry is malformed, or its name and its pattern are texts and the pattern compiles. -/
def ReadableEntry (regex : String → Option R) (entry : Json) : Prop :=
  ∀ name pattern, named entry = some (name, pattern) →
    ∃ n p, name = .string n ∧ pattern = .string p ∧ (regex (c_str p)).isSome

/-- The condition on a call: `global_system_config` is an object, and of a `statlist` the entries
are readable, the names have no NUL, and the last pattern of a name has none. -/
structure Plain (regex : String → Option R) (jdoc : Json) (add_change : Bool) : Prop where
  object : add_change = true → ∀ config, jdoc.get "global_system_config" = some config →
    config.IsObject = true
  entries : add_change = true → ∀ elems, CarriesStatlist jdoc elems →
    ∀ entry ∈ elems, ReadableEntry regex entry
  names : add_change = true → ∀ elems, CarriesStatlist jdoc elems →
    ∀ p ∈ elems.filterMap wellFormed, '\x00' ∉ p.1.toList
  patterns : add_change = true → ∀ elems, CarriesStatlist jdoc elems →
    ∀ name pattern, last (elems.filterMap wellFormed) name = some pattern → '\x00' ∉ pattern.toList

-- ---------------------------------------------------------------------------
-- The handler, document by document
-- ---------------------------------------------------------------------------

theorem UDCHandler_statlist {config_ : Cfg_t R} {jdoc : Json} {elems : List Json}
    (h : CarriesStatlist jdoc elems) :
    UDCHandler regex config_ jdoc true = (elems.foldlM (addEntry regex) config_).map sweep := by
  obtain ⟨config, statistics, hconfig, hstatistics, hstatlist⟩ := h
  have hjdoc := Json.isObject_of_get hconfig
  have hobject := Json.isObject_of_get hstatistics
  have hobject' := Json.isObject_of_get hstatlist
  rw [UDCHandler, if_neg (by decide), if_neg (by simp [hjdoc]), Json.hasMember_of_isObject hjdoc, hconfig]
  simp only [Option.bind_eq_bind, Option.bind_some, Option.isSome_some, Bool.not_true, Bool.false_eq_true,
    if_false, Json.hasMember_of_isObject hobject, hstatistics, hobject', Json.hasMember_of_isObject hobject',
    hstatlist, Option.pure_def]
  cases elems.foldlM (addEntry regex) config_ <;> rfl

theorem UDCHandler_without {config_ : Cfg_t R} {jdoc : Json} (h : WithoutStatistics jdoc) :
    UDCHandler regex config_ jdoc true = some (sweep config_) := by
  obtain ⟨config, hconfig, hobject, hstatistics⟩ := h
  have hjdoc := Json.isObject_of_get hconfig
  rw [UDCHandler, if_neg (by decide), if_neg (by simp [hjdoc]), Json.hasMember_of_isObject hjdoc, hconfig]
  simp only [Option.bind_eq_bind, Option.bind_some, Option.isSome_some, Bool.not_true, Bool.false_eq_true,
    if_false, Json.hasMember_of_isObject hobject, hstatistics, Option.isSome_none, Bool.not_false,
    if_true, Option.pure_def]

/-- Any other call returns the counters as they are, where it returns. -/
theorem UDCHandler_other {config_ : Cfg_t R} {jdoc : Json} {add_change : Bool}
    (h : ¬ (add_change = true ∧ ((∃ elems, CarriesStatlist jdoc elems) ∨ WithoutStatistics jdoc)))
    (hobject : add_change = true → ∀ config, jdoc.get "global_system_config" = some config →
      config.IsObject = true) :
    UDCHandler regex config_ jdoc add_change = some (config_, []) := by
  cases hadd : add_change with
  | false => rfl
  | true =>
    rw [UDCHandler, if_neg (by decide)]
    cases hjdoc : jdoc.IsObject with
    | false => rfl
    | true =>
      rw [Json.hasMember_of_isObject hjdoc]
      cases hconfig : jdoc.get "global_system_config" with
      | none => rfl
      | some config =>
        have hconfigObject := hobject hadd config hconfig
        cases hstatistics : config.get "user_defined_log_statistics" with
        | none => exact absurd ⟨hadd, .inr ⟨config, hconfig, hconfigObject, hstatistics⟩⟩ h
        | some statistics =>
          simp only [Option.bind_eq_bind, Option.bind_some, Option.isSome_some, Bool.not_true, Bool.false_eq_true,
            if_false, Json.hasMember_of_isObject hconfigObject, hstatistics, Option.pure_def]
          cases hstatisticsObject : statistics.IsObject with
          | false => rfl
          | true =>
            rw [Json.hasMember_of_isObject hstatisticsObject]
            cases hgsc : statistics.get "statlist" with
            | none => rfl
            | some gsc =>
              cases gsc with
              | array elems =>
                exact absurd ⟨hadd, .inl ⟨elems, config, statistics, hconfig, hstatistics, hgsc⟩⟩ h
              | _ => rfl

/-- A `global_system_config` that is no object stops the call. -/
theorem UDCHandler_not_object {config_ : Cfg_t R} {jdoc config : Json}
    (hconfig : jdoc.get "global_system_config" = some config) (hobject : config.IsObject = false) :
    UDCHandler regex config_ jdoc true = none := by
  have hjdoc := Json.isObject_of_get hconfig
  rw [UDCHandler, if_neg (by decide), if_neg (by simp [hjdoc]), Json.hasMember_of_isObject hjdoc, hconfig]
  simp only [Option.bind_eq_bind, Option.bind_some, Option.isSome_some, Bool.not_true, Bool.false_eq_true,
    if_false, Json.hasMember_of_not_isObject hobject, Option.bind_none]

theorem addEntry_eq (config_ : Cfg_t R) (entry : Json) :
    addEntry regex config_ entry = match named entry with
      | none => some config_
      | some (name, pattern) => name.GetString.bind fun name => pattern.GetString.bind fun patrn =>
        AddConfig regex config_ name patrn := by
  rw [addEntry, named]
  cases hobject : entry.IsObject with
  | false =>
    cases hname : entry.get "name" with
    | none => rfl
    | some name => rw [Json.isObject_of_get hname] at hobject; cases hobject
  | true =>
    rw [Json.hasMember_of_isObject hobject, Json.hasMember_of_isObject hobject]
    cases entry.get "name" with
    | none => rfl
    | some name => cases entry.get "pattern" <;> rfl

-- ---------------------------------------------------------------------------
-- Mark
-- ---------------------------------------------------------------------------

theorem last_cons (p : String × String) (pairs : List (String × String)) (name : String) :
    last (p :: pairs) name = (last pairs name).or (if p.1 = name then some p.2 else none) := by
  rw [last, last, List.filter_cons]
  by_cases hp : p.1 = name
  · rw [if_pos (decide_eq_true hp), if_pos hp, List.getLast?_cons]
    cases (pairs.filter fun p => p.1 = name).getLast? <;> rfl
  · rw [if_neg (by simpa using hp), if_neg hp, Option.or_none]

theorem last_isSome_iff {pairs : List (String × String)} {name : String} :
    (last pairs name).isSome ↔ ∃ p ∈ pairs, p.1 = name := by
  induction pairs with
  | nil => simp [last]
  | cons p rest ih =>
    rw [last_cons, Option.isSome_or, Bool.or_eq_true, ih, List.exists_mem_cons_iff, or_comm]
    by_cases hp : p.1 = name <;> simp [hp]

/-- What the loop reads of an entry. -/
def entryText (entry : Json) : Option (String × String) :=
  (wellFormed entry).map fun p => (c_str p.1, c_str p.2)

theorem AddConfig_eq {config_ : Cfg_t R} (h : Faithful regex config_) (name pattern : String) :
    AddConfig regex config_ name pattern =
      (regex pattern).map fun regexp => config_.assign name ⟨true, name, pattern, regexp⟩ := by
  rw [AddConfig]
  cases hfind : config_.find? name with
  | none =>
    show (Option.map _ (regex pattern)).map _ = _
    rw [Option.map_map]
    congr 1
    funext regexp
    refine OrderedMap.ext_find fun key => ?_
    show (config_.insert name _).find? key = _
    rw [OrderedMap.find?_insert, OrderedMap.find?_assign]
    by_cases hkey : key = name
    · subst hkey
      simp [hfind]
    · simp [hkey]
  | some c =>
    obtain rfl := h.names name c hfind
    have hcompiled := h.compiled c.name_ c hfind
    by_cases hsame : pattern = c.regexp_str_
    · subst hsame
      rw [hcompiled]
      simp only [if_true]
      rfl
    · simp only [if_neg hsame, UserDefinedCounterData.SetPattern]
      cases regex pattern <;> rfl

theorem faithful_assign {config_ : Cfg_t R} (h : Faithful regex config_) {name pattern : String}
    {regexp : R} (hregexp : regex pattern = some regexp) :
    Faithful regex (config_.assign name ⟨true, name, pattern, regexp⟩) := by
  refine ⟨fun key c hc => ?_, fun key c hc => ?_⟩
  all_goals
    rw [OrderedMap.find?_assign] at hc
    by_cases hkey : key = name
    · rw [if_pos hkey] at hc
      obtain rfl := Option.some.inj hc
      first | exact hkey.symm | exact hregexp
    · rw [if_neg hkey] at hc
      first | exact h.names key c hc | exact h.compiled key c hc

/-- An entry is taken over if and only if it is readable. -/
theorem addEntry_isSome_iff {config_ : Cfg_t R} (h : Faithful regex config_) (entry : Json) :
    (addEntry regex config_ entry).isSome ↔ ReadableEntry regex entry := by
  rw [addEntry_eq, ReadableEntry]
  cases hnamed : named entry with
  | none => simp
  | some both =>
    obtain ⟨name, pattern⟩ := both
    constructor
    · intro hsome name' pattern' heq
      obtain ⟨rfl, rfl⟩ := Prod.mk.inj (Option.some.inj heq)
      cases name with
      | string n =>
        cases pattern with
        | string p =>
          refine ⟨n, p, rfl, rfl, ?_⟩
          change (AddConfig regex config_ (c_str n) (c_str p)).isSome at hsome
          rwa [AddConfig_eq h, Option.isSome_map] at hsome
        | _ => cases hsome
      | _ => cases hsome
    · intro hreadable
      obtain ⟨n, p, rfl, rfl, hregex⟩ := hreadable name pattern rfl
      show (AddConfig regex config_ (c_str n) (c_str p)).isSome
      rwa [AddConfig_eq h, Option.isSome_map]

/-- It is then marked, with its pattern. -/
theorem addEntry_spec {config_ config_' : Cfg_t R} (h : Faithful regex config_) {entry : Json}
    (hadd : addEntry regex config_ entry = some config_') :
    Faithful regex config_' ∧ match entryText entry with
      | none => config_' = config_
      | some (name, pattern) =>
        ∃ regexp, config_' = config_.assign name ⟨true, name, pattern, regexp⟩ := by
  have hreadable := (addEntry_isSome_iff h entry).mp (by rw [hadd]; rfl)
  rw [addEntry_eq] at hadd
  cases hnamed : named entry with
  | none =>
    rw [hnamed] at hadd
    obtain rfl := Option.some.inj hadd
    have htext : entryText entry = none := by rw [entryText, wellFormed, hnamed]; rfl
    rw [htext]
    exact ⟨h, rfl⟩
  | some both =>
    obtain ⟨n, p, hn, hp, -⟩ := hreadable both.1 both.2 hnamed
    have hboth : both = (.string n, .string p) := Prod.ext hn hp
    rw [hboth] at hnamed
    rw [hnamed] at hadd
    change AddConfig regex config_ (c_str n) (c_str p) = some config_' at hadd
    rw [AddConfig_eq h] at hadd
    obtain ⟨regexp, hregexp, rfl⟩ := Option.map_eq_some_iff.mp hadd
    have htext : entryText entry = some (c_str n, c_str p) := by rw [entryText, wellFormed, hnamed]; rfl
    rw [htext]
    exact ⟨faithful_assign h hregexp, regexp, rfl⟩

/-- The list marks the names it has, each with its last pattern, and leaves the others. -/
theorem addEntries_spec {elems : List Json} {config_ config_' : Cfg_t R}
    (h : Faithful regex config_) (hrun : elems.foldlM (addEntry regex) config_ = some config_') :
    Faithful regex config_' ∧ ∀ name, match last (elems.filterMap entryText) name with
      | none => config_'.find? name = config_.find? name
      | some pattern => ∃ regexp, config_'.find? name = some ⟨true, name, pattern, regexp⟩ := by
  induction elems generalizing config_ with
  | nil =>
    obtain rfl := Option.some.inj hrun
    exact ⟨h, fun name => rfl⟩
  | cons entry rest ih =>
    rw [List.foldlM_cons] at hrun
    obtain ⟨middle, hadd, hrest⟩ := Option.bind_eq_some_iff.mp hrun
    obtain ⟨hmiddle, hentry⟩ := addEntry_spec h hadd
    obtain ⟨hfaithful, hfind⟩ := ih hmiddle hrest
    refine ⟨hfaithful, fun name => ?_⟩
    have hname := hfind name
    cases htext : entryText entry with
    | none =>
      rw [htext] at hentry
      rw [List.filterMap_cons_none htext]
      rwa [← show middle = config_ from hentry]
    | some pair =>
      obtain ⟨n, p⟩ := pair
      rw [htext] at hentry
      obtain ⟨regexp, hassign⟩ := hentry
      rw [List.filterMap_cons_some htext, last_cons]
      cases hlast : last (rest.filterMap entryText) name with
      | some pattern => rwa [hlast] at hname
      | none =>
        rw [hlast] at hname
        change config_'.find? name = middle.find? name at hname
        rw [hassign, OrderedMap.find?_assign] at hname
        by_cases heq : n = name
        · rw [if_pos heq]
          subst heq
          rw [if_pos rfl] at hname
          exact ⟨regexp, hname⟩
        · rw [if_neg heq]
          rw [if_neg (Ne.symm heq)] at hname
          exact hname

-- ---------------------------------------------------------------------------
-- Sweep
-- ---------------------------------------------------------------------------

theorem sweep_find? (config_ : Cfg_t R) (name : String) :
    (sweep config_).1.find? name = (config_.find? name).bind fun c =>
      if c.refreshed_ then some { c with refreshed_ := false } else none :=
  OrderedMap.find?_filterMapValues _ config_ name

theorem mem_sweep_sent {config_ : Cfg_t R} {u : UserDefinedLogStatistic} :
    u ∈ (sweep config_).2 ↔
      u.deleted = true ∧ ∃ c, config_.find? u.name = some c ∧ c.refreshed_ = false := by
  show u ∈ (config_.entries.filter fun e => !e.2.refreshed_).map (fun e => ⟨e.1, true⟩) ↔ _
  rw [List.mem_map]
  constructor
  · intro ⟨e, he, hu⟩
    obtain ⟨hmem, hflag⟩ := List.mem_filter.mp he
    subst hu
    exact ⟨rfl, e.2, OrderedMap.mem_entries.mp hmem, by simpa using hflag⟩
  · intro ⟨hdeleted, c, hc, hflag⟩
    refine ⟨(u.name, c), List.mem_filter.mpr ⟨OrderedMap.mem_entries.mpr hc, by simp [hflag]⟩, ?_⟩
    show (⟨u.name, true⟩ : UserDefinedLogStatistic) = u
    rw [← hdeleted]

theorem sweep_sent_nodup (config_ : Cfg_t R) : (sweep config_).2.Nodup := by
  show ((config_.entries.filter fun e => !e.2.refreshed_).map _).Nodup
  refine List.Pairwise.map _ ?_ (config_.sorted.filter _)
  intro a b hlt heq
  have hname : a.1 = b.1 := congrArg UserDefinedLogStatistic.name heq
  rw [hname] at hlt
  exact lt_irrefl _ hlt

theorem settled_sweep {config_ : Cfg_t R} (h : Faithful regex config_) :
    Settled regex (sweep config_).1 := by
  have hkept : ∀ name c, (sweep config_).1.find? name = some c →
      ∃ c', config_.find? name = some c' ∧ c = { c' with refreshed_ := false } := by
    intro name c hc
    rw [sweep_find?] at hc
    obtain ⟨c', hc', hflag⟩ := Option.bind_eq_some_iff.mp hc
    split at hflag
    · exact ⟨c', hc', (Option.some.inj hflag).symm⟩
    · cases hflag
  refine { names := fun name c hc => ?_, compiled := fun name c hc => ?_, unmarked := fun name c hc => ?_ }
  all_goals obtain ⟨c', hc', rfl⟩ := hkept name c hc
  · exact h.names name c' hc'
  · exact h.compiled name c' hc'
  · rfl

-- ---------------------------------------------------------------------------
-- One call
-- ---------------------------------------------------------------------------

/-- What `last` gives of the texts that the loop reads. -/
theorem last_entryText {elems : List Json}
    (h : ∀ p ∈ elems.filterMap wellFormed, '\x00' ∉ p.1.toList) (name : String) :
    last (elems.filterMap entryText) name = (last (elems.filterMap wellFormed) name).map c_str := by
  have hmap : elems.filterMap entryText =
      (elems.filterMap wellFormed).map fun p => (c_str p.1, c_str p.2) := by
    rw [List.map_filterMap]
    rfl
  rw [hmap]
  generalize elems.filterMap wellFormed = pairs at h
  induction pairs with
  | nil => rfl
  | cons p rest ih =>
    have hp : c_str p.1 = p.1 := c_str_eq_iff.mpr (h p List.mem_cons_self)
    rw [List.map_cons, last_cons, last_cons, ih fun q hq => h q (List.mem_cons_of_mem _ hq), hp]
    cases last rest name with
    | some pattern => rfl
    | none =>
      by_cases heq : p.1 = name
      · rw [if_pos heq, if_pos heq]
        rfl
      · rw [if_neg heq, if_neg heq]
        rfl

/-- The patterns after the list has been read and what it lacks has been swept away. -/
theorem sweep_addEntries {elems : List Json} {config_ config_' : Cfg_t R}
    (h : Settled regex config_) (hrun : elems.foldlM (addEntry regex) config_ = some config_')
    (name : String) :
    ((sweep config_').1.find? name).map (·.regexp_str_) = last (elems.filterMap entryText) name := by
  have hfind := (addEntries_spec h.toFaithful hrun).2 name
  rw [sweep_find?]
  cases hlast : last (elems.filterMap entryText) name with
  | some pattern =>
    rw [hlast] at hfind
    obtain ⟨regexp, hmarked⟩ := hfind
    rw [hmarked]
    rfl
  | none =>
    rw [hlast] at hfind
    rw [show config_'.find? name = config_.find? name from hfind]
    cases hold : config_.find? name with
    | none => rfl
    | some c =>
      show Option.map _ (if c.refreshed_ = true then _ else none) = none
      rw [if_neg (by rw [h.unmarked name c hold]; decide)]
      rfl

/-- A UVE is sent for each name that the sweep takes away. -/
theorem mem_sent_addEntries {elems : List Json} {config_ config_' : Cfg_t R}
    (h : Settled regex config_) (hrun : elems.foldlM (addEntry regex) config_ = some config_')
    {u : UserDefinedLogStatistic} :
    u ∈ (sweep config_').2 ↔ u.deleted = true ∧ (config_.find? u.name).isSome ∧
      (sweep config_').1.find? u.name = none := by
  have hfind := (addEntries_spec h.toFaithful hrun).2 u.name
  rw [mem_sweep_sent, sweep_find?]
  refine and_congr_right fun _ => ?_
  cases hlast : last (elems.filterMap entryText) u.name with
  | some pattern =>
    rw [hlast] at hfind
    obtain ⟨regexp, hmarked⟩ := hfind
    simp [hmarked]
  | none =>
    rw [hlast] at hfind
    rw [show config_'.find? u.name = config_.find? u.name from hfind]
    cases hold : config_.find? u.name with
    | none => simp
    | some c => simp [h.unmarked u.name c hold]

theorem sweep_settled_fst {config_ : Cfg_t R} (h : Settled regex config_) :
    (sweep config_).1 = OrderedMap.empty := by
  refine OrderedMap.ext_find fun name => ?_
  rw [sweep_find?, OrderedMap.find?_empty]
  cases hold : config_.find? name with
  | none => rfl
  | some c =>
    show (if c.refreshed_ = true then _ else none) = none
    rw [if_neg (by rw [h.unmarked name c hold]; decide)]

/-- No mark survives a call. -/
theorem settled_UDCHandler {config_ config_' : Cfg_t R} {jdoc : Json} {add_change : Bool}
    {sent : List UserDefinedLogStatistic} (h : Settled regex config_)
    (hcall : UDCHandler regex config_ jdoc add_change = some (config_', sent)) :
    Settled regex config_' := by
  by_cases hchange : add_change = true ∧
      ((∃ elems, CarriesStatlist jdoc elems) ∨ WithoutStatistics jdoc)
  · obtain ⟨rfl, ⟨elems, helems⟩ | hwithout⟩ := hchange
    · rw [UDCHandler_statlist helems] at hcall
      obtain ⟨refreshed, hrun, hsweep⟩ := Option.map_eq_some_iff.mp hcall
      obtain rfl : (sweep refreshed).1 = config_' := congrArg Prod.fst hsweep
      exact settled_sweep (addEntries_spec h.toFaithful hrun).1
    · rw [UDCHandler_without hwithout] at hcall
      obtain rfl : (sweep config_).1 = config_' := congrArg Prod.fst (Option.some.inj hcall)
      exact settled_sweep h.toFaithful
  · by_cases hobject : add_change = true → ∀ config, jdoc.get "global_system_config" = some config →
        config.IsObject = true
    · rw [UDCHandler_other hchange hobject] at hcall
      obtain rfl : config_ = config_' := congrArg Prod.fst (Option.some.inj hcall)
      exact h
    · push Not at hobject
      obtain ⟨rfl, config, hconfig, hnot⟩ := hobject
      rw [UDCHandler_not_object hconfig (by simpa using hnot)] at hcall
      cases hcall

/-- A document does not both list counters and leave the statistics out, nor does it carry two lists. -/
theorem carriesStatlist_unique {jdoc : Json} {elems elems' : List Json}
    (h : CarriesStatlist jdoc elems) (h' : CarriesStatlist jdoc elems') : elems = elems' := by
  obtain ⟨config, statistics, hconfig, hstatistics, hstatlist⟩ := h
  obtain ⟨config', statistics', hconfig', hstatistics', hstatlist'⟩ := h'
  rw [hconfig] at hconfig'
  obtain rfl := Option.some.inj hconfig'
  rw [hstatistics] at hstatistics'
  obtain rfl := Option.some.inj hstatistics'
  rw [hstatlist] at hstatlist'
  exact Json.array.inj (Option.some.inj hstatlist')

theorem not_withoutStatistics {jdoc : Json} {elems : List Json} (h : CarriesStatlist jdoc elems) :
    ¬ WithoutStatistics jdoc := by
  intro ⟨config', hconfig', _, hnone⟩
  obtain ⟨config, statistics, hconfig, hstatistics, -⟩ := h
  rw [hconfig] at hconfig'
  obtain rfl := Option.some.inj hconfig'
  rw [hstatistics] at hnone
  cases hnone

/-- A change with a list. -/
theorem statlist_mirrors_iff {config_ : Cfg_t R} {jdoc : Json} {elems : List Json}
    (h : Settled regex config_) (helems : CarriesStatlist jdoc elems) :
    (∃ config_' sent, UDCHandler regex config_ jdoc true = some (config_', sent) ∧
        Mirrors regex config_ jdoc true config_' sent) ↔ Plain regex jdoc true := by
  rw [UDCHandler_statlist helems]
  -- the entries can be added one after the other iff each is readable
  have hruns := (foldlM_isSome_iff_forall (f := addEntry regex) (P := Faithful regex)
    (Q := ReadableEntry regex) (fun s a hs => addEntry_isSome_iff hs a)
    (fun s a s' hs hstep => (addEntry_spec hs hstep).1) elems config_ h.toFaithful).1
  constructor
  · intro ⟨config_', sent, hcall, hmirrors⟩
    obtain ⟨refreshed, hrun, hsweep⟩ := Option.map_eq_some_iff.mp hcall
    obtain rfl : (sweep refreshed).1 = config_' := congrArg Prod.fst hsweep
    -- what is listed is what the last entries say, and what is kept is cut at a NUL
    have hlisted := hmirrors.listed rfl elems helems
    have hnames : ∀ p ∈ elems.filterMap wellFormed, '\x00' ∉ p.1.toList := by
      intro p hp
      have hsome : (last (elems.filterMap wellFormed) p.1).isSome := last_isSome_iff.mpr ⟨p, hp, rfl⟩
      rw [← hlisted p.1, sweep_addEntries h hrun, last_isSome_iff] at hsome
      obtain ⟨q, hq, hname⟩ := hsome
      obtain ⟨entry, -, htext⟩ := List.mem_filterMap.mp hq
      obtain ⟨pair, -, rfl⟩ := Option.map_eq_some_iff.mp htext
      rw [← hname]
      exact c_str_nul pair.1
    refine ⟨fun _ config hconfig => ?_, fun _ elems' helems' => ?_, fun _ elems' helems' => ?_,
      fun _ elems' helems' name pattern hpattern => ?_⟩
    · -- the change has a configuration, which is an object
      obtain ⟨config', statistics, hconfig', hstatistics, -⟩ := helems
      rw [hconfig] at hconfig'
      obtain rfl := Option.some.inj hconfig'
      exact Json.isObject_of_get hstatistics
    · -- each entry is readable: the run over them has come to its end
      obtain rfl := carriesStatlist_unique helems helems'
      exact hruns.mp (by rw [hrun]; rfl)
    · obtain rfl := carriesStatlist_unique helems helems'
      exact hnames
    · obtain rfl := carriesStatlist_unique helems helems'
      -- both say what the name has, so the cut leaves the pattern as it is
      have hboth := (hlisted name).symm.trans (sweep_addEntries h hrun name)
      rw [last_entryText hnames, hpattern] at hboth
      exact c_str_eq_iff.mp (Option.some.inj hboth).symm
  · intro hplain
    -- conversely, the run comes to its end, and a cut changes nothing
    obtain ⟨refreshed, hrun⟩ := Option.isSome_iff_exists.mp (hruns.mpr (hplain.entries rfl elems helems))
    rw [hrun]
    have hlisted : ∀ name, ((sweep refreshed).1.find? name).map (·.regexp_str_) =
        last (elems.filterMap wellFormed) name := by
      intro name
      rw [sweep_addEntries h hrun, last_entryText (hplain.names rfl elems helems)]
      cases hlast : last (elems.filterMap wellFormed) name with
      | none => rfl
      | some pattern =>
        exact congrArg some (c_str_eq_iff.mpr (hplain.patterns rfl elems helems name pattern hlast))
    refine ⟨_, _, rfl, ?_⟩
    -- the rest holds of every sweep
    exact {
      listed := fun _ elems' helems' => carriesStatlist_unique helems helems' ▸ hlisted
      cleared := fun _ hwithout => absurd hwithout (not_withoutStatistics helems)
      unchanged := fun hother => absurd ⟨rfl, .inl ⟨elems, helems⟩⟩ hother
      removed := fun u => mem_sent_addEntries h hrun
      once := sweep_sent_nodup refreshed
      faithful := (settled_sweep (addEntries_spec h.toFaithful hrun).1).toFaithful }

/-- A change without the statistics. -/
theorem without_mirrors {config_ : Cfg_t R} {jdoc : Json} (h : Settled regex config_)
    (hwithout : WithoutStatistics jdoc) :
    Mirrors regex config_ jdoc true (sweep config_).1 (sweep config_).2 where
  listed _ _ helems := absurd hwithout (not_withoutStatistics helems)
  cleared _ _ := sweep_settled_fst h
  unchanged hother := absurd ⟨rfl, .inr hwithout⟩ hother
  removed _ :=
    have hrun : ([] : List Json).foldlM (addEntry regex) config_ = some config_ := rfl
    mem_sent_addEntries h hrun
  once := sweep_sent_nodup config_
  faithful := (settled_sweep h.toFaithful).toFaithful

/-- Any other call. -/
theorem other_mirrors {config_ : Cfg_t R} {jdoc : Json} {add_change : Bool} (h : Settled regex config_)
    (hother : ¬ (add_change = true ∧
      ((∃ elems, CarriesStatlist jdoc elems) ∨ WithoutStatistics jdoc))) :
    Mirrors regex config_ jdoc add_change config_ [] where
  listed hadd elems helems := absurd ⟨hadd, .inl ⟨elems, helems⟩⟩ hother
  cleared hadd hwithout := absurd ⟨hadd, .inr hwithout⟩ hother
  unchanged _ := rfl
  removed u := by
    refine ⟨(nomatch ·), fun ⟨_, hsome, hnone⟩ => ?_⟩
    rw [hnone] at hsome
    cases hsome
  once := List.nodup_nil
  faithful := h.toFaithful

theorem call_mirrors_iff {config_ : Cfg_t R} (h : Settled regex config_) (jdoc : Json)
    (add_change : Bool) :
    (∃ config_' sent, UDCHandler regex config_ jdoc add_change = some (config_', sent) ∧
        Mirrors regex config_ jdoc add_change config_' sent) ↔ Plain regex jdoc add_change := by
  by_cases hchange : add_change = true ∧
      ((∃ elems, CarriesStatlist jdoc elems) ∨ WithoutStatistics jdoc)
  · obtain ⟨rfl, ⟨elems, helems⟩ | hwithout⟩ := hchange
    · exact statlist_mirrors_iff h helems
    · refine iff_of_true ⟨_, _, UDCHandler_without hwithout, without_mirrors h hwithout⟩ ?_
      refine ⟨fun _ config hconfig => ?_, ?_, ?_, ?_⟩
      · obtain ⟨config', hconfig', hobject, -⟩ := hwithout
        rw [hconfig] at hconfig'
        exact Option.some.inj hconfig' ▸ hobject
      all_goals exact fun _ elems helems => absurd hwithout (not_withoutStatistics helems)
  · by_cases hobject : add_change = true → ∀ config, jdoc.get "global_system_config" = some config →
        config.IsObject = true
    · refine iff_of_true ⟨_, _, UDCHandler_other hchange hobject, other_mirrors h hchange⟩ ⟨hobject, ?_, ?_, ?_⟩
      all_goals exact fun hadd elems helems => absurd ⟨hadd, .inl ⟨elems, helems⟩⟩ hchange
    · refine iff_of_false ?_ fun hplain => hobject hplain.object
      push Not at hobject
      obtain ⟨rfl, config, hconfig, hnot⟩ := hobject
      intro ⟨config_', sent, hcall, _⟩
      rw [UDCHandler_not_object hconfig (by simpa using hnot)] at hcall
      cases hcall

-- ---------------------------------------------------------------------------
-- Runs
-- ---------------------------------------------------------------------------

/-- Every call of a run returns and mirrors its document. -/
def AllMirror (regex : String → Option R) : Cfg_t R → List (Json × Bool) → Prop
  | _, [] => True
  | config_, call :: rest => ∃ config_' sent,
    UDCHandler regex config_ call.1 call.2 = some (config_', sent) ∧
      Mirrors regex config_ call.1 call.2 config_' sent ∧ AllMirror regex config_' rest

theorem allMirror_iff_of_settled {config_ : Cfg_t R} (h : Settled regex config_)
    (calls : List (Json × Bool)) :
    AllMirror regex config_ calls ↔ ∀ call ∈ calls, Plain regex call.1 call.2 := by
  induction calls generalizing config_ with
  | nil => simp [AllMirror]
  | cons call rest ih =>
    rw [AllMirror, List.forall_mem_cons, ← call_mirrors_iff h]
    constructor
    · intro ⟨config_', sent, hcall, hmirrors, hrest⟩
      exact ⟨⟨config_', sent, hcall, hmirrors⟩, (ih (settled_UDCHandler h hcall)).mp hrest⟩
    · intro ⟨⟨config_', sent, hcall, hmirrors⟩, hrest⟩
      exact ⟨config_', sent, hcall, hmirrors, (ih (settled_UDCHandler h hcall)).mpr hrest⟩

theorem settled_empty (regex : String → Option R) : Settled regex OrderedMap.empty := by
  refine { names := fun name c hc => ?_, compiled := fun name c hc => ?_, unmarked := fun name c hc => ?_ }
  all_goals
    rw [OrderedMap.find?_empty] at hc
    cases hc

/-- In a run from the start every call mirrors its document if and only if every call is plain. -/
theorem allMirror_iff (regex : String → Option R) (calls : List (Json × Bool)) :
    AllMirror regex OrderedMap.empty calls ↔ ∀ call ∈ calls, Plain regex call.1 call.2 :=
  allMirror_iff_of_settled (settled_empty regex) calls

/-- A change that lists the entries. -/
def statlistDoc (elems : List Json) : Json :=
  .object [("global_system_config",
    .object [("user_defined_log_statistics", .object [("statlist", .array elems)])])]

/-- A pattern that `boost::regex` does not read: the call does not return. -/
theorem not_allMirror :
    ¬ ∀ (R : Type) (regex : String → Option R) (calls : List (Json × Bool)),
      AllMirror regex OrderedMap.empty calls := by
  intro h
  obtain ⟨config_', sent, hcall, -⟩ := h Unit (fun pat => if pat = "[" then none else some ())
    [(statlistDoc [.object [("name", .string "links"), ("pattern", .string "[")]], true)]
  have hnone : UDCHandler (fun pat => if pat = "[" then none else some ()) OrderedMap.empty
      (statlistDoc [.object [("name", .string "links"), ("pattern", .string "[")]]) true = none := by
    decide
  rw [hnone] at hcall
  cases hcall

end UserDefinedCounters

end TfAnalytics.Collector
