import TfAnalytics.Lib.Dict
import TfAnalytics.OpServer.UveServer
import TfAnalytics.OpServer.ParallelAggregator

/-!
# Analytics API — reading a UVE

`UVEServer.get_uve` (uveserver.py) reads the values of a UVE from all Redis instances, source
by source, into one state, and aggregates the state after each instance. With a filter on the
acknowledgement (`ackfilt`) it keeps, of the alarms of each source, those that match; when none
does, the struct type UVEAlarms is deleted from the state, with all that other sources put
there before.

* `visitOrigin_spec`: what a source changes in the state;
* `collect_spec`: what all sources leave under UVEAlarms;
* `get_uve_eq`: the response is the aggregation of what they leave.
-/

namespace TfAnalytics.OpServer

open TfAnalytics.Lib

-- ---------------------------------------------------------------------------
-- What is read
-- ---------------------------------------------------------------------------

/-- `xmltodict.parse`: the root element and its value. -/
structure XmlReader where
  parse : String → Option (String × AttrValue)
  /-- The members of an element are a dictionary. -/
  nodup : ∀ text root v, parse text = some (root, v) →
    ∀ e ∈ (v.items.getD []).filterMap Elem.members, (e.map Prod.fst).Nodup

structure UveFilters extends Filters where
  ackfilt : Option String := none

/-- A member of ALARM_ORIGINS or ORIGINS, `source:mdule:typ`, with the hash of its values. -/
structure Origin where
  source : String
  mdule : String
  typ : String
  values : Dict String String

def Origin.dsource (o : Origin) : String := o.source ++ ":" ++ o.mdule

/-- An instance, and the origins of the UVE in the order in which the set gives them. -/
structure UveInstance where
  active : Bool
  origins : List Origin

/-- `state[key]`: struct types, attributes, sources. -/
abbrev UveDict := Dict String (Dict String (Dict String AttrValue))

/-- The origins that pass `tfilter`, `sfilter` and `mfilter`; `tt not in tfilter` looks for a
part of the text when `tfilter` is one. -/
def passes (filters : UveFilters) (o : Origin) : Bool :=
  (match filters.cfilt with
    | none => true
    | some (.types attrs) => o.typ ∈ attrs.map Prod.fst
    | some .uveAlarms => o.typ.toList <:+: "UVEAlarms".toList) &&
  filters.sfilt.all (· = o.source) && filters.mfilt.all (· = o.mdule)

/-- `afilter_list`; a text has no entry `tfilter[typ]`. -/
def afilter_list (filters : UveFilters) (typ : String) : Option (List String) :=
  match filters.cfilt with
  | none => some []
  | some (.types attrs) => attrs.lookup typ
  | some .uveAlarms => none

/-- What becomes of a value: an exception, it is left out, no alarm matches, or it is stored. -/
inductive Reading
  | raised
  | skipped
  | filtered
  | value (v : AttrValue)

/-- `ack`: the text of an alarm's member, or 'false' without it. -/
def ackOf (alarm : Elem) : Option String := do
  let members ← alarm.members
  match members.lookup "ack" with
  | none => some "false"
  | some ack_attr => ack_attr.text

/-- The loop over the alarms. -/
def ackedAlarms (ackfilter : String) : List Elem → Option (List Elem)
  | [] => some []
  | alarm :: rest => do
    let ack ← ackOf alarm
    let alarms ← ackedAlarms ackfilter rest
    some (if ack = ackfilter then alarm :: alarms else alarms)

/-- A value that was parsed. -/
def readAttr (ackfilter : Option String) (typ attr : String) (v : AttrValue) : Reading :=
  match v with
  | .list aggtype name size items =>
    if size = "0" then .skipped
    else
      match ackfilter with
      | none => .value v
      | some ackfilter =>
        if typ = "UVEAlarms" ∧ attr = "alarms" then
          match ackedAlarms ackfilter items with
          | none => .raised
          | some [] => .filtered
          | some alarms => .value (.list aggtype name (toString alarms.length) alarms)
        else .value v
  | .basic .. | .struct .. | .textMap .. | .structMap .. => .value v

variable (X : XmlReader) (filters : UveFilters)

/-- A value of the hash: only XML of less than 100000 characters is read. -/
def readValue (afilter : List String) (typ attr text : String) : Reading :=
  if afilter ≠ [] ∧ attr ∉ afilter then .skipped
  else
    match text.toList with
    | [] => .raised
    | c :: _ =>
      if c ≠ '<' then .skipped
      else if 100000 ≤ text.length then .skipped
      else
        match X.parse text with
        | none => .skipped
        | some (root, v) => if root ≠ attr then .raised else readAttr filters.ackfilt typ attr v

-- ---------------------------------------------------------------------------
-- The state
-- ---------------------------------------------------------------------------

/-- The value goes under its source; of the times `__T` only the latest is kept when the UVE is
flattened. -/
def store (flat : Bool) (o : Origin) (attr : String) (v : AttrValue) (state : UveDict) :
    UveDict × Bool :=
  let attrs := (state.find? o.typ).getD .empty
  let sources := (attrs.find? attr).getD .empty
  if attr = "__T" ∧ flat = true then
    match sources.entries with
    | [] => (state.set o.typ (attrs.set attr (sources.set o.dsource v)), false)
    | (_, latest) :: _ =>
      match latest.text, v.text with
      | some t, some t' =>
        if t' < t then (state, false)
        else (state.set o.typ (attrs.set attr (Dict.empty.set o.dsource v)), false)
      | none, _ | _, none => (state, true)
  else (state.set o.typ (attrs.set attr (sources.set o.dsource v)), false)

/-- The loop over the values of a source; after an exception nothing more is done. -/
structure Visit where
  state : UveDict
  del_uvealarms : Bool
  raised : Bool

def visitValue (flat : Bool) (afilter : List String) (o : Origin) (visit : Visit)
    (value : String × String) : Visit :=
  if visit.raised then visit
  else
    match readValue X filters afilter o.typ value.1 value.2 with
    | .raised => { visit with raised := true }
    | .skipped => visit
    | .filtered => { visit with del_uvealarms := true }
    | .value v =>
      let stored := store flat o value.1 v visit.state
      { visit with state := stored.1, raised := stored.2 }

/-- A source: the state and whether there was an exception. -/
def visitOrigin (flat : Bool) (acc : UveDict × Bool) (o : Origin) : UveDict × Bool :=
  if acc.2 then acc
  else
    match afilter_list filters o.typ with
    | none => (acc.1, true)
    | some afilter =>
      let visit := o.values.entries.foldl (visitValue X filters flat afilter o) ⟨acc.1, false, false⟩
      if visit.raised then (visit.state, true)
      else if visit.del_uvealarms then (visit.state.erase "UVEAlarms", false)
      else (visit.state, false)

/-- The sources of an attribute; in the state each has one at least. -/
def oattr? (sources : Dict String AttrValue) : Option OAttr :=
  match sources.entries with
  | [] => none
  | first :: rest => some ⟨first, rest⟩

def oattrs (attrs : Dict String (Dict String AttrValue)) : List (String × OAttr) :=
  attrs.entries.filterMap fun attr => (oattr? attr.2).map (attr.1, ·)

def stateTypes (state : UveDict) : List (String × List (String × OAttr)) :=
  state.entries.map fun typ => (typ.1, oattrs typ.2)

-- ---------------------------------------------------------------------------
-- get_uve
-- ---------------------------------------------------------------------------

structure UveRequest where
  state : UveDict
  failures : Bool
  rsp : List (String × List (String × Entry))

variable (B : Builtins) (flat : Bool)

/-- An instance: its sources are read and the state is aggregated, unless there is an
exception. -/
def visitInstance (acc : UveRequest) (r_inst : UveInstance) : UveRequest :=
  if r_inst.active then
    let visited := (r_inst.origins.filter (passes filters)).foldl (visitOrigin X filters flat)
      (acc.state, false)
    if visited.2 then { acc with state := visited.1, failures := true }
    else { acc with state := visited.1, rsp := aggregateTypes B flat (stateTypes visited.1) }
  else acc

/-- `get_uve` without the cache. -/
def get_uve (instances : List UveInstance) : Bool × List (String × List (String × Entry)) :=
  let result := instances.foldl (visitInstance X filters B flat) ⟨.empty, false, []⟩
  (result.failures, result.rsp)

-- ---------------------------------------------------------------------------
-- What the sources report
-- ---------------------------------------------------------------------------

def Reading.isFiltered : Reading → Bool
  | .filtered => true
  | .raised | .skipped | .value _ => false

def Reading.value? : Reading → Option AttrValue
  | .value v => some v
  | .raised | .skipped | .filtered => none

/-- What becomes of a value of the source. -/
def reading (o : Origin) (value : String × String) : Reading :=
  readValue X filters ((afilter_list filters o.typ).getD []) o.typ value.1 value.2

/-- The source has alarms that are read, and none of them matches. -/
def clears (o : Origin) : Bool :=
  o.values.entries.any fun value => (reading X filters o value).isFiltered

/-- The sources after the last one that clears UVEAlarms. -/
def afterCleared (os : List Origin) : List Origin :=
  os.foldl (fun kept o => if clears X filters o then [] else kept ++ [o]) []

/-- Some value of UVEAlarms is stored. -/
def keepsAlarms (o : Origin) : Bool :=
  o.typ = "UVEAlarms" && o.values.entries.any fun value => (reading X filters o value).value?.isSome

/-- The list of alarms that is stored for the source. -/
def storedAlarms (o : Origin) : Option AttrValue :=
  if o.typ = "UVEAlarms" then
    (o.values.find? "alarms").bind fun text => (reading X filters o ("alarms", text)).value?
  else none

/-- The stored list of alarms goes under its source. -/
def addAlarms (sources : Dict String AttrValue) (o : Origin) (v : Option AttrValue) :
    Dict String AttrValue :=
  match v with
  | some v => sources.set o.dsource v
  | none => sources

/-- The lists of alarms that are stored: a later one takes the place of an earlier one from a
source of the same name. -/
def alarmReports (os : List Origin) : Dict String AttrValue :=
  (afterCleared X filters os).foldl (fun sources o =>
    addAlarms sources o (storedAlarms X filters o)) .empty

/-- A value of a source. -/
structure StoredValue where
  origin : Origin
  attr : String
  value : AttrValue

/-- A value that is stored. -/
def storedValue (o : Origin) (value : String × String) : Option StoredValue :=
  (reading X filters o value).value?.map (⟨o, value.1, ·⟩)

/-- One more source: with alarms of which none matches it takes those of UVEAlarms away. -/
def stay (stored : List StoredValue) (o : Origin) : List StoredValue :=
  if clears X filters o then stored.filter (·.origin.typ ≠ "UVEAlarms")
  else stored ++ o.values.entries.filterMap (storedValue X filters o)

/-- The values that stay. -/
def staying (os : List Origin) : List StoredValue := os.foldl (stay X filters) []

/-- A value goes under its source; of the times of a flattened UVE the latest stays. -/
def addValue (flat : Bool) (sources : Dict String AttrValue) (s : StoredValue) :
    Dict String AttrValue :=
  if s.attr = "__T" ∧ flat = true then
    match sources.entries with
    | [] => sources.set s.origin.dsource s.value
    | (_, latest) :: _ =>
      if s.value.text.getD "" < latest.text.getD "" then sources
      else Dict.empty.set s.origin.dsource s.value
  else sources.set s.origin.dsource s.value

/-- What the sources have of an attribute. -/
def sourcesIn (flat : Bool) (stored : List StoredValue) (typ attr : String) :
    Dict String AttrValue :=
  (stored.filter fun s => s.origin.typ = typ ∧ s.attr = attr).foldl (addValue flat) .empty

/-- The alarms of a source whose acknowledgement equals the filter. -/
def matching (ackfilter : String) (o : Origin) : Option AttrValue :=
  if o.typ = "UVEAlarms" then do
    let text ← o.values.find? "alarms"
    match ← X.parse text with
    | (_, .list aggtype name _ items) =>
      let alarms := items.filter fun alarm => ackOf alarm = some ackfilter
      if alarms = [] then none
      else some (.list aggtype name (toString alarms.length) alarms)
    | _ => none
  else none

/-- What the collectors write for a source: XML whose root is the attribute; a time has a text;
and the alarms are a list, without '@aggtype', of structs whose `ack`, if any, has a text. -/
structure Reported (o : Origin) : Prop where
  nonempty : ∀ value ∈ o.values.entries, value.2 ≠ ""
  root : ∀ value ∈ o.values.entries, ∀ root v, X.parse value.2 = some (root, v) → root = value.1
  time : ∀ value ∈ o.values.entries, value.1 = "__T" →
    ∀ root v, X.parse value.2 = some (root, v) → v.text.isSome
  alarms : o.typ = "UVEAlarms" → ∀ text, o.values.find? "alarms" = some text →
    ∀ root v, X.parse text = some (root, v) → ∃ name size items,
      v = .list none name size items ∧ ∀ alarm ∈ items, (ackOf alarm).isSome

-- ---------------------------------------------------------------------------
-- One value
-- ---------------------------------------------------------------------------

/-- What holds of the values in the state. -/
def Good (attr : String) (v : AttrValue) : Prop :=
  (attr = "__T" → v.text.isSome) ∧
    ∀ e ∈ (v.items.getD []).filterMap Elem.members, (e.map Prod.fst).Nodup

/-- `state[key][typ]`. -/
def attrsOf (state : UveDict) (typ : String) : Dict String (Dict String AttrValue) :=
  (state.find? typ).getD .empty

/-- `state[key][typ][attr]`. -/
def sourcesOf (state : UveDict) (typ attr : String) : Dict String AttrValue :=
  ((attrsOf state typ).find? attr).getD .empty

def AllGood (state : UveDict) : Prop :=
  ∀ typ attr source v, (sourcesOf state typ attr).find? source = some v → Good attr v

/-- The state has these values, in the order in which the types and attributes came first. -/
structure Stores (flat : Bool) (stored : List StoredValue) (state : UveDict) : Prop where
  sources : ∀ typ attr, sourcesOf state typ attr = sourcesIn flat stored typ attr
  types : state.entries.map Prod.fst = distinct (stored.map (·.origin.typ))
  attrs : ∀ typ, (attrsOf state typ).entries.map Prod.fst =
    distinct ((stored.filter (·.origin.typ = typ)).map (·.attr))

variable {X filters flat}

theorem ackedAlarms_eq {ackfilter : String} {items : List Elem}
    (h : ∀ alarm ∈ items, (ackOf alarm).isSome) : ackedAlarms ackfilter items =
      some (items.filter fun alarm => ackOf alarm = some ackfilter) := by
  induction items with
  | nil => rfl
  | cons alarm rest ih =>
    rw [List.forall_mem_cons] at h
    obtain ⟨ack, hack⟩ := Option.isSome_iff_exists.mp h.1
    rw [ackedAlarms, hack, ih h.2, List.filter_cons, hack]
    by_cases heq : ack = ackfilter <;> simp [heq]

theorem readAttr_list (ackfilter typ attr : String) (aggtype : Option AggType)
    (name size : String) (items : List Elem) :
    readAttr (some ackfilter) typ attr (.list aggtype name size items) =
      if size = "0" then .skipped
      else if typ = "UVEAlarms" ∧ attr = "alarms" then
        match ackedAlarms ackfilter items with
        | none => .raised
        | some [] => .filtered
        | some alarms => .value (.list aggtype name (toString alarms.length) alarms)
      else .value (.list aggtype name size items) := rfl

/-- A value that is parsed is stored as it is, or it is the source's list of alarms, which is
filtered. -/
theorem readAttr_cases {ackfilter : Option String} {typ attr : String} {v : AttrValue}
    (halarms : typ = "UVEAlarms" → attr = "alarms" → ∀ alarm ∈ v.items.getD [],
      (ackOf alarm).isSome) :
    readAttr ackfilter typ attr v = .skipped ∨ readAttr ackfilter typ attr v = .value v ∨
      ∃ f aggtype name size items, ackfilter = some f ∧ typ = "UVEAlarms" ∧ attr = "alarms" ∧
        v = .list aggtype name size items ∧ size ≠ "0" ∧
        ((items.filter (fun alarm => ackOf alarm = some f) = [] ∧
            readAttr ackfilter typ attr v = .filtered) ∨
          ∃ alarms, alarms = items.filter (fun alarm => ackOf alarm = some f) ∧ alarms ≠ [] ∧
            readAttr ackfilter typ attr v =
              .value (.list aggtype name (toString alarms.length) alarms)) := by
  cases v with
  | list aggtype name size items =>
    by_cases hsize : size = "0"
    · exact .inl (if_pos hsize)
    cases ackfilter with
    | none => exact .inr (.inl (if_neg hsize))
    | some f =>
      rw [readAttr_list, if_neg hsize]
      by_cases hcond : typ = "UVEAlarms" ∧ attr = "alarms"
      · have hall : ∀ alarm ∈ items, (ackOf alarm).isSome := halarms hcond.1 hcond.2
        refine .inr (.inr ⟨f, aggtype, name, size, items, rfl, hcond.1, hcond.2, rfl, hsize, ?_⟩)
        rw [if_pos hcond, ackedAlarms_eq hall]
        cases halarms' : items.filter fun alarm => ackOf alarm = some f with
        | nil => exact .inl ⟨rfl, rfl⟩
        | cons alarm rest => exact .inr ⟨alarm :: rest, rfl, by simp, rfl⟩
      · exact .inr (.inl (if_neg hcond))
  | _ => exact .inr (.inl rfl)

/-- A value of a source is left out, or it is parsed with the attribute as the root. -/
theorem reading_cases {o : Origin} (ho : Reported X o) {value : String × String}
    (hvalue : value ∈ o.values.entries) :
    reading X filters o value = .skipped ∨ ∃ v, X.parse value.2 = some (value.1, v) ∧
      reading X filters o value = readAttr filters.ackfilt o.typ value.1 v := by
  rw [reading, readValue]
  split
  · exact .inl rfl
  · split
    · rename_i hempty
      exact absurd (String.toList_eq_nil_iff.mp hempty) (ho.nonempty value hvalue)
    · split
      · exact .inl rfl
      · split
        · exact .inl rfl
        · cases hparse : X.parse value.2 with
          | none => exact .inl rfl
          | some parsed =>
            obtain ⟨root, v⟩ := parsed
            obtain rfl := ho.root value hvalue root v hparse
            exact .inr ⟨v, rfl, if_neg (by simp)⟩

/-- What the reading of a value gives. -/
theorem reading_good {o : Origin} (ho : Reported X o) {value : String × String}
    (hvalue : value ∈ o.values.entries) :
    (∀ v, reading X filters o value = .value v → Good value.1 v) ∧
      (reading X filters o value = .filtered → o.typ = "UVEAlarms" ∧ value.1 = "alarms") ∧
      reading X filters o value ≠ .raised := by
  rcases @reading_cases X filters o ho value hvalue with hskip | ⟨v, hparse, hread⟩
  · rw [hskip]
    exact ⟨fun _ h => (nomatch h), fun h => (nomatch h), fun h => (nomatch h)⟩
  · have hgood : Good value.1 v :=
      ⟨fun htime => ho.time value hvalue htime _ v hparse, X.nodup _ _ v hparse⟩
    have halarms : o.typ = "UVEAlarms" → value.1 = "alarms" → ∀ alarm ∈ v.items.getD [],
        (ackOf alarm).isSome := by
      intro htyp hattr
      have hfind : o.values.find? "alarms" = some value.2 := by
        rw [← Dict.mem_entries, ← hattr]
        exact hvalue
      obtain ⟨name, size, items, rfl, hall⟩ := ho.alarms htyp value.2 hfind _ v hparse
      exact hall
    rw [hread]
    rcases @readAttr_cases filters.ackfilt o.typ value.1 v halarms with
      h | h | ⟨f, aggtype, name, size, items, -, htyp, hattr, rfl, -, ⟨-, h⟩ | ⟨alarms, rfl, -, h⟩⟩
    · rw [h]
      exact ⟨fun _ h => (nomatch h), fun h => (nomatch h), fun h => (nomatch h)⟩
    · rw [h]
      refine ⟨fun w hw => ?_, fun h => (nomatch h), fun h => (nomatch h)⟩
      cases hw
      exact hgood
    · rw [h]
      exact ⟨fun _ h => (nomatch h), fun _ => ⟨htyp, hattr⟩, fun h => (nomatch h)⟩
    · rw [h]
      refine ⟨fun w hw => ?_, fun h => (nomatch h), fun h => (nomatch h)⟩
      cases hw
      refine ⟨fun htime => absurd (hattr.symm.trans htime) (by decide), fun e he => ?_⟩
      obtain ⟨alarm, halarm, hmembers⟩ := List.mem_filterMap.mp he
      exact hgood.2 e (List.mem_filterMap.mpr ⟨alarm, (List.mem_filter.mp halarm).1, hmembers⟩)

theorem attrsOf_set (state : UveDict) (typ : String) (attrs : Dict String (Dict String AttrValue))
    (typ' : String) :
    attrsOf (state.set typ attrs) typ' = if typ' = typ then attrs else attrsOf state typ' := by
  rw [attrsOf, Dict.find?_set]
  split <;> rfl

theorem sourcesOf_set (state : UveDict) (typ attr : String) (sources : Dict String AttrValue)
    (typ' attr' : String) :
    sourcesOf (state.set typ ((attrsOf state typ).set attr sources)) typ' attr' =
      if typ' = typ ∧ attr' = attr then sources else sourcesOf state typ' attr' := by
  rw [sourcesOf, attrsOf_set]
  by_cases htyp : typ' = typ
  · subst htyp
    rw [if_pos rfl, Dict.find?_set]
    by_cases hattr : attr' = attr
    · rw [if_pos hattr, if_pos ⟨rfl, hattr⟩]
      rfl
    · rw [if_neg hattr, if_neg fun h => hattr h.2]
      rfl
  · rw [if_neg htyp, if_neg fun h => htyp h.1]
    rfl

/-- Storing a value puts it under its source, with the others or in their place; an older time
leaves the attribute as it is. -/
theorem store_eq {state : UveDict} (hgood : AllGood state) {o : Origin} {attr : String}
    {v : AttrValue} (hv : Good attr v) : store flat o attr v state =
      (state.set o.typ ((attrsOf state o.typ).set attr
        (addValue flat (sourcesOf state o.typ attr) ⟨o, attr, v⟩)), false) := by
  unfold store addValue
  by_cases htime : attr = "__T" ∧ flat = true
  · rw [if_pos htime, if_pos htime]
    cases hentries : (sourcesOf state o.typ attr).entries with
    | nil =>
      simp only [sourcesOf, attrsOf] at hentries
      simp only [hentries, sourcesOf, attrsOf]
    | cons latest rest =>
      obtain ⟨source, latest⟩ := latest
      have hlatest : (sourcesOf state o.typ attr).find? source = some latest :=
        Dict.mem_entries.mp (hentries ▸ List.mem_cons_self)
      obtain ⟨t, ht⟩ := Option.isSome_iff_exists.mp
        ((hgood o.typ attr source latest hlatest).1 htime.1)
      obtain ⟨t', ht'⟩ := Option.isSome_iff_exists.mp (hv.1 htime.1)
      -- the attribute is there, so that setting it again changes nothing
      obtain ⟨attrs, hattrs⟩ : ∃ attrs, state.find? o.typ = some attrs := by
        refine Option.isSome_iff_exists.mp (Option.isSome_iff_ne_none.mpr fun hnone => ?_)
        simp [sourcesOf, attrsOf, hnone] at hlatest
      obtain ⟨sources, hsources⟩ : ∃ sources, attrs.find? attr = some sources := by
        refine Option.isSome_iff_exists.mp (Option.isSome_iff_ne_none.mpr fun hnone => ?_)
        simp [sourcesOf, attrsOf, hattrs, hnone] at hlatest
      have hsame : state.set o.typ ((attrsOf state o.typ).set attr (sourcesOf state o.typ attr)) =
          state := by
        rw [sourcesOf, attrsOf, hattrs, Option.getD_some, hsources, Option.getD_some,
          Dict.set_of_find? hsources, Dict.set_of_find? hattrs]
      simp only [ht', ht, Option.getD_some]
      by_cases hlt : t' < t
      · rw [if_pos hlt, hsame]
        simp only [sourcesOf, attrsOf] at hentries
        simp only [hentries, ht, if_pos hlt]
      · rw [if_neg hlt]
        simp only [sourcesOf, attrsOf] at hentries
        simp only [hentries, ht, if_neg hlt, attrsOf]
  · rw [if_neg htime, if_neg htime]
    rfl

theorem good_addValue {sources : Dict String AttrValue} {s : StoredValue} (hv : Good s.attr s.value)
    (hgood : ∀ source v, sources.find? source = some v → Good s.attr v) :
    ∀ source v, (addValue flat sources s).find? source = some v → Good s.attr v := by
  have hset : ∀ d : Dict String AttrValue, (∀ source v, d.find? source = some v → Good s.attr v) →
      ∀ source v, (d.set s.origin.dsource s.value).find? source = some v → Good s.attr v := by
    intro d hd source v h
    rw [Dict.find?_set] at h
    split at h
    · exact Option.some.inj h ▸ hv
    · exact hd source v h
  unfold addValue
  split
  · split
    · exact hset sources hgood
    · split
      · exact hgood
      · exact hset .empty fun _ _ h => absurd h (by simp)
  · exact hset sources hgood

theorem sourcesIn_snoc (stored : List StoredValue) (s : StoredValue) (typ attr : String) :
    sourcesIn flat (stored ++ [s]) typ attr =
      if typ = s.origin.typ ∧ attr = s.attr then addValue flat (sourcesIn flat stored typ attr) s
      else sourcesIn flat stored typ attr := by
  rw [sourcesIn, List.filter_append, List.filter_singleton, List.foldl_append]
  by_cases h : typ = s.origin.typ ∧ attr = s.attr
  · obtain ⟨rfl, rfl⟩ := h
    simp [sourcesIn]
  · rw [if_neg h, decide_eq_false fun h' => h ⟨h'.1.symm, h'.2.symm⟩]
    rfl

/-- What storing a value of a source leaves. -/
theorem store_spec {state : UveDict} {stored : List StoredValue} (hgood : AllGood state)
    (hst : Stores flat stored state) {o : Origin} {attr : String} {v : AttrValue}
    (hv : Good attr v) : ∃ state', store flat o attr v state = (state', false) ∧
      AllGood state' ∧ Stores flat (stored ++ [⟨o, attr, v⟩]) state' := by
  refine ⟨_, store_eq hgood hv, fun typ attr' source w hw => ?_, fun typ attr' => ?_, ?_,
    fun typ => ?_⟩
  · rw [sourcesOf_set] at hw
    split at hw
    next h =>
      rw [h.2]
      exact good_addValue (s := ⟨o, attr, v⟩) hv (hgood o.typ attr) source w hw
    next => exact hgood typ attr' source w hw
  · rw [sourcesOf_set, sourcesIn_snoc, hst.sources]
    split
    next h => rw [h.1, h.2]
    next => exact hst.sources typ attr'
  · rw [List.map_append]
    exact Dict.keys_set hst.types _ _
  · rw [attrsOf_set, List.filter_append, List.filter_singleton]
    split
    next h =>
      rw [h, decide_eq_true rfl, cond_true, List.map_append]
      exact Dict.keys_set (hst.attrs o.typ) _ _
    next h =>
      rw [decide_eq_false (Ne.symm h), cond_false, List.append_nil]
      exact hst.attrs typ

-- ---------------------------------------------------------------------------
-- One source
-- ---------------------------------------------------------------------------

/-- UVEAlarms is in the state. -/
def hasAlarms (state : UveDict) : Bool := (state.find? "UVEAlarms").isSome

/-- The lists of alarms in the state. -/
def alarmsOf (state : UveDict) : Dict String AttrValue := sourcesOf state "UVEAlarms" "alarms"

theorem Stores.hasAlarms_eq {stored : List StoredValue} {state : UveDict}
    (h : Stores flat stored state) :
    hasAlarms state = stored.any (·.origin.typ = "UVEAlarms") := by
  rw [hasAlarms, Dict.find?, Bool.eq_iff_iff, lookup_isSome_iff_mem, h.types,
    mem_distinct, List.mem_map, List.any_eq_true]
  simp only [decide_eq_true_eq]

/-- What one value of the source changes. -/
theorem visitValue_spec {o : Origin} (ho : Reported X o) {afilter : List String}
    (hf : afilter_list filters o.typ = some afilter) {value : String × String}
    (hvalue : value ∈ o.values.entries) {visit : Visit} (hr : visit.raised = false)
    (hgood : AllGood visit.state) {stored : List StoredValue}
    (hst : Stores flat stored visit.state) :
    ∃ state', visitValue X filters flat afilter o visit value =
        ⟨state', visit.del_uvealarms || (reading X filters o value).isFiltered, false⟩ ∧
      AllGood state' ∧ Stores flat (stored ++ (storedValue X filters o value).toList) state' := by
  obtain ⟨hval, -, hnot⟩ := @reading_good X filters o ho value hvalue
  have hread : readValue X filters afilter o.typ value.1 value.2 = reading X filters o value := by
    rw [reading, hf, Option.getD_some]
  obtain ⟨state, del_uvealarms, raised⟩ := visit
  obtain rfl : raised = false := hr
  rw [visitValue, if_neg Bool.false_ne_true, hread, storedValue]
  cases hcase : reading X filters o value with
  | raised => exact absurd hcase hnot
  | skipped =>
    exact ⟨state, by simp [Reading.isFiltered], hgood, by simpa [Reading.value?] using hst⟩
  | filtered =>
    exact ⟨state, by simp [Reading.isFiltered], hgood, by simpa [Reading.value?] using hst⟩
  | value v =>
    obtain ⟨state', hstore, hgood', hst'⟩ := store_spec hgood hst (hval v hcase)
    exact ⟨state', by simp [hstore, Reading.isFiltered], hgood', hst'⟩

/-- What the values of the source change. -/
theorem foldl_visitValue {o : Origin} (ho : Reported X o) {afilter : List String}
    (hf : afilter_list filters o.typ = some afilter) (values : List (String × String))
    (hvalues : ∀ value ∈ values, value ∈ o.values.entries) {visit : Visit}
    (hr : visit.raised = false) (hgood : AllGood visit.state) {stored : List StoredValue}
    (hst : Stores flat stored visit.state) :
    ∃ state', values.foldl (visitValue X filters flat afilter o) visit =
        ⟨state', visit.del_uvealarms ||
          values.any fun value => (reading X filters o value).isFiltered, false⟩ ∧
      AllGood state' ∧ Stores flat (stored ++ values.filterMap (storedValue X filters o)) state' := by
  induction values generalizing visit stored with
  | nil =>
    obtain ⟨state, del_uvealarms, raised⟩ := visit
    obtain rfl : raised = false := hr
    exact ⟨state, by simp, hgood, by simpa using hst⟩
  | cons value rest ih =>
    rw [List.forall_mem_cons] at hvalues
    obtain ⟨state₁, hstep, hgood₁, hst₁⟩ :=
      visitValue_spec ho hf hvalues.1 hr hgood hst
    obtain ⟨state', hrun, hgood', hst'⟩ := @ih hvalues.2 ⟨state₁, _, false⟩ rfl hgood₁ _ hst₁
    refine ⟨state', ?_, hgood', ?_⟩
    · rw [List.foldl_cons, hstep, hrun, List.any_cons, Bool.or_assoc]
    · rw [List.append_assoc] at hst'
      rw [List.filterMap_cons]
      cases hvalue : storedValue X filters o value with
      | none => simpa [hvalue] using hst'
      | some s => simpa [hvalue] using hst'

theorem sourcesOf_erase (state : UveDict) (typ attr : String) :
    sourcesOf (state.erase "UVEAlarms") typ attr =
      if typ = "UVEAlarms" then .empty else sourcesOf state typ attr := by
  rw [sourcesOf, attrsOf, Dict.find?_erase]
  split <;> rfl

theorem filter_other (stored : List StoredValue) (p : StoredValue → Bool)
    (hp : ∀ s, p s = true → s.origin.typ ≠ "UVEAlarms") :
    (stored.filter (·.origin.typ ≠ "UVEAlarms")).filter p = stored.filter p := by
  rw [List.filter_filter]
  refine List.filter_congr fun s _ => ?_
  cases hs : p s with
  | true => simp [hp s hs]
  | false => simp

theorem filter_uvealarms (stored : List StoredValue) (p : StoredValue → Bool)
    (hp : ∀ s, p s = true → s.origin.typ = "UVEAlarms") :
    (stored.filter (·.origin.typ ≠ "UVEAlarms")).filter p = [] := by
  rw [List.filter_filter, List.filter_eq_nil_iff]
  intro s _ h
  rw [Bool.and_eq_true] at h
  exact of_decide_eq_true h.2 (hp s h.1)

theorem sourcesIn_other (stored : List StoredValue) (typ attr : String) :
    sourcesIn flat (stored.filter (·.origin.typ ≠ "UVEAlarms")) typ attr =
      if typ = "UVEAlarms" then .empty else sourcesIn flat stored typ attr := by
  rw [sourcesIn]
  split
  next h =>
    rw [filter_uvealarms stored _ fun s hs => (of_decide_eq_true hs).1.trans h]
    rfl
  next h =>
    rw [filter_other stored _ fun s hs => (of_decide_eq_true hs).1.trans_ne h]
    rfl

/-- `del state[key]['UVEAlarms']`. -/
theorem Stores.erase {stored : List StoredValue} {state : UveDict} (h : Stores flat stored state) :
    Stores flat (stored.filter (·.origin.typ ≠ "UVEAlarms")) (state.erase "UVEAlarms") where
  sources typ attr := by rw [sourcesOf_erase, sourcesIn_other, h.sources]
  types := by
    rw [Dict.keys_erase h.types, List.filter_map]
    rfl
  attrs typ := by
    rw [attrsOf, Dict.find?_erase]
    split
    next htyp =>
      rw [filter_uvealarms stored _ fun s hs => (of_decide_eq_true hs).trans htyp]
      rfl
    next htyp =>
      rw [filter_other stored _ fun s hs => (of_decide_eq_true hs).trans_ne htyp]
      exact h.attrs typ

/-- What a source changes: when it has alarms and none matches, UVEAlarms is gone. -/
theorem visitOrigin_spec {o : Origin} (ho : Reported X o)
    (hf : (afilter_list filters o.typ).isSome) {state : UveDict} (hgood : AllGood state)
    {stored : List StoredValue} (hst : Stores flat stored state) :
    ∃ state', visitOrigin X filters flat (state, false) o = (state', false) ∧ AllGood state' ∧
      Stores flat (stay X filters stored o) state' := by
  obtain ⟨afilter, hafilter⟩ := Option.isSome_iff_exists.mp hf
  obtain ⟨state', hrun, hgood', hst'⟩ := @foldl_visitValue X filters flat o ho afilter hafilter
    o.values.entries (fun _ h => h) ⟨state, false, false⟩ rfl hgood stored hst
  have hvisit : visitOrigin X filters flat (state, false) o =
      if clears X filters o then (state'.erase "UVEAlarms", false) else (state', false) := by
    simp only [visitOrigin, Bool.false_eq_true, if_false, hafilter, hrun, Bool.false_or]
    rfl
  rw [hvisit, stay]
  cases hclears : clears X filters o with
  | true =>
    refine ⟨_, if_pos rfl, fun typ attr source v hv => ?_, ?_⟩
    · rw [sourcesOf_erase] at hv
      split at hv
      · cases hv
      · exact hgood' typ attr source v hv
    · -- the values of the source itself are of UVEAlarms
      obtain ⟨value, hvalue, hfiltered⟩ := List.any_eq_true.mp hclears
      have htyp : o.typ = "UVEAlarms" := by
        refine ((@reading_good X filters o ho value hvalue).2.1 ?_).1
        cases hread : reading X filters o value with
        | filtered => rfl
        | _ => simp [hread, Reading.isFiltered] at hfiltered
      have hown : (o.values.entries.filterMap (storedValue X filters o)).filter
          (·.origin.typ ≠ "UVEAlarms") = [] := by
        rw [List.filter_eq_nil_iff]
        intro s hs
        obtain ⟨value, -, hvalue⟩ := List.mem_filterMap.mp hs
        obtain ⟨v, -, rfl⟩ := Option.map_eq_some_iff.mp hvalue
        simp [htyp]
      have herased := hst'.erase
      rw [List.filter_append, hown, List.append_nil] at herased
      exact herased
  | false => exact ⟨state', if_neg Bool.false_ne_true, hgood', hst'⟩

-- ---------------------------------------------------------------------------
-- All sources
-- ---------------------------------------------------------------------------

/-- The sources of all instances, one after the other. -/
def visited (filters : UveFilters) (instances : List UveInstance) : List Origin :=
  instances.flatMap fun r_inst =>
    if r_inst.active then r_inst.origins.filter (passes filters) else []

variable (X filters flat) in
/-- The state after the sources. -/
def collect (os : List Origin) : UveDict × Bool :=
  os.foldl (visitOrigin X filters flat) (.empty, false)

/-- What the sources leave. -/
structure Collected (X : XmlReader) (filters : UveFilters) (flat : Bool) (os : List Origin)
    (state : UveDict) : Prop where
  good : AllGood state
  stores : Stores flat (staying X filters os) state

theorem staying_snoc (os : List Origin) (o : Origin) :
    staying X filters (os ++ [o]) = stay X filters (staying X filters os) o := by
  rw [staying, List.foldl_append]
  rfl

theorem afterCleared_snoc (os : List Origin) (o : Origin) : afterCleared X filters (os ++ [o]) =
    if clears X filters o then [] else afterCleared X filters os ++ [o] := by
  rw [afterCleared, List.foldl_append]
  rfl

theorem collect_snoc (os : List Origin) (o : Origin) : collect X filters flat (os ++ [o]) =
    visitOrigin X filters flat (collect X filters flat os) o := by
  rw [collect, List.foldl_append]
  rfl

theorem collect_spec {os : List Origin}
    (hos : ∀ o ∈ os, Reported X o ∧ (afilter_list filters o.typ).isSome) :
    ∃ state, collect X filters flat os = (state, false) ∧ Collected X filters flat os state := by
  induction os using List.reverseRecOn with
  | nil =>
    exact ⟨.empty, rfl, fun _ _ _ _ h => absurd h (by simp [sourcesOf, attrsOf]),
      fun _ _ => rfl, rfl, fun _ => rfl⟩
  | append_singleton os o ih =>
    obtain ⟨state, hstate, hcoll⟩ := ih fun o' ho' => hos o' (List.mem_append_left _ ho')
    obtain ⟨ho, hf⟩ := hos o (by simp)
    obtain ⟨state', hvisit, hgood, hst⟩ := visitOrigin_spec ho hf hcoll.good hcoll.stores
    rw [← staying_snoc] at hst
    exact ⟨state', by rw [collect_snoc, hstate, hvisit], hgood, hst⟩

/-- The values of UVEAlarms that stay are those of the sources after the last one that clears it. -/
theorem any_staying (os : List Origin) :
    (staying X filters os).any (·.origin.typ = "UVEAlarms") =
      (afterCleared X filters os).any (keepsAlarms X filters) := by
  induction os using List.reverseRecOn with
  | nil => rfl
  | append_singleton os o ih =>
    rw [staying_snoc, stay, afterCleared_snoc]
    split
    · simp
    · have hown : (o.values.entries.filterMap (storedValue X filters o)).any
          (·.origin.typ = "UVEAlarms") = keepsAlarms X filters o := by
        rw [keepsAlarms, List.any_filterMap]
        by_cases htyp : o.typ = "UVEAlarms"
        · simp only [htyp, decide_true, Bool.true_and]
          congr 1
          funext value
          rw [storedValue]
          cases (reading X filters o value).value? <;> simp [htyp]
        · simp only [htyp, decide_false, Bool.false_and]
          rw [List.any_eq_false]
          intro value _
          rw [storedValue]
          cases (reading X filters o value).value? <;> simp [htyp]
      rw [List.any_append, ih, hown]
      simp

/-- The alarms of one source. -/
theorem sourcesIn_values {o : Origin} (values : List (String × String))
    (hnodup : (values.map Prod.fst).Nodup) (stored : List StoredValue) :
    sourcesIn flat (stored ++ values.filterMap (storedValue X filters o)) "UVEAlarms" "alarms" =
      addAlarms (sourcesIn flat stored "UVEAlarms" "alarms") o
        (if o.typ = "UVEAlarms" then (values.lookup "alarms").bind fun text =>
          (reading X filters o ("alarms", text)).value? else none) := by
  induction values generalizing stored with
  | nil => simp [addAlarms]
  | cons value rest ih =>
    obtain ⟨attr, text⟩ := value
    rw [List.map_cons, List.nodup_cons] at hnodup
    have hsplit : stored ++ ((attr, text) :: rest).filterMap (storedValue X filters o) =
        (stored ++ (storedValue X filters o (attr, text)).toList) ++
          rest.filterMap (storedValue X filters o) := by
      rw [List.filterMap_cons]
      cases storedValue X filters o (attr, text) <;> simp
    have hown : sourcesIn flat (stored ++ (storedValue X filters o (attr, text)).toList)
        "UVEAlarms" "alarms" = addAlarms (sourcesIn flat stored "UVEAlarms" "alarms") o
          (if o.typ = "UVEAlarms" ∧ attr = "alarms" then
            (reading X filters o (attr, text)).value? else none) := by
      rw [storedValue]
      cases (reading X filters o (attr, text)).value? with
      | none => simp [addAlarms]
      | some v =>
        rw [Option.map_some, Option.toList_some, sourcesIn_snoc]
        by_cases h : o.typ = "UVEAlarms" ∧ attr = "alarms"
        · rw [if_pos ⟨h.1.symm, h.2.symm⟩, if_pos h, addValue,
            if_neg fun htime => absurd (h.2.symm.trans htime.1) (by decide)]
          rfl
        · rw [if_neg fun h' => h ⟨h'.1.symm, h'.2.symm⟩, if_neg h]
          rfl
    rw [hsplit, ih hnodup.2, hown]
    by_cases htyp : o.typ = "UVEAlarms"
    · rw [if_pos htyp, if_pos htyp, List.lookup_cons]
      by_cases hattr : attr = "alarms"
      · subst hattr
        -- The attribute occurs once.
        have hnone : rest.lookup "alarms" = none := by
          rw [← Option.not_isSome_iff_eq_none, lookup_isSome_iff_mem]
          exact hnodup.1
        rw [if_pos ⟨htyp, rfl⟩, hnone, beq_self_eq_true]
        rfl
      · rw [if_neg fun h => hattr h.2, beq_eq_false_iff_ne.mpr (Ne.symm hattr)]
        rfl
    · rw [if_neg htyp, if_neg htyp, if_neg fun h => htyp h.1]
      rfl

theorem sourcesIn_staying (os : List Origin) :
    sourcesIn flat (staying X filters os) "UVEAlarms" "alarms" = alarmReports X filters os := by
  induction os using List.reverseRecOn with
  | nil => rfl
  | append_singleton os o ih =>
    rw [staying_snoc, stay, alarmReports, afterCleared_snoc]
    split
    · rw [sourcesIn_other, if_pos rfl]
      rfl
    · rw [sourcesIn_values _ o.values.nodup, ih, List.foldl_append]
      rfl

theorem Collected.hasAlarms_eq {os : List Origin} {state : UveDict}
    (h : Collected X filters flat os state) :
    hasAlarms state = (afterCleared X filters os).any (keepsAlarms X filters) :=
  h.stores.hasAlarms_eq.trans (any_staying os)

theorem Collected.alarmsOf_eq {os : List Origin} {state : UveDict}
    (h : Collected X filters flat os state) : alarmsOf state = alarmReports X filters os :=
  (h.stores.sources _ _).trans (sourcesIn_staying os)

/-- The response is the aggregation of what the sources of all instances leave. -/
theorem get_uve_eq {instances : List UveInstance} (hos : ∀ o ∈ visited filters instances,
      Reported X o ∧ (afilter_list filters o.typ).isSome) :
    get_uve X filters B flat instances = (false,
      aggregateTypes B flat (stateTypes (collect X filters flat (visited filters instances)).1)) := by
  have hrun : instances.foldl (visitInstance X filters B flat) ⟨.empty, false, []⟩ =
      ⟨(collect X filters flat (visited filters instances)).1, false,
        aggregateTypes B flat
          (stateTypes (collect X filters flat (visited filters instances)).1)⟩ := by
    induction instances using List.reverseRecOn with
    | nil => rfl
    | append_singleton instances r_inst ih =>
      have hvisited : visited filters (instances ++ [r_inst]) = visited filters instances ++
          if r_inst.active then r_inst.origins.filter (passes filters) else [] := by
        simp [visited]
      rw [hvisited] at hos ⊢
      have hbefore := ih fun o ho => hos o (List.mem_append_left _ ho)
      rw [List.foldl_append, hbefore, List.foldl_cons, List.foldl_nil, visitInstance]
      cases hactive : r_inst.active with
      | false => simp
      | true =>
        rw [hactive, if_pos rfl] at hos
        obtain ⟨state, hstate, -⟩ := @collect_spec X filters flat _ fun o ho =>
          hos o (List.mem_append_left _ ho)
        obtain ⟨state', hstate', -⟩ := @collect_spec X filters flat _ hos
        have hread : (r_inst.origins.filter (passes filters)).foldl (visitOrigin X filters flat)
            (state, false) = (state', false) := by
          rw [← hstate, ← hstate', collect, collect, List.foldl_append]
        simp only [if_true, hstate, hstate', hread, Bool.false_eq_true, if_false]
  rw [get_uve, hrun]

end TfAnalytics.OpServer
