import Mathlib
import TfAnalytics.OpServer.GetUve

/-!
# Analytics API — alarms by their acknowledgement

With `ackfilt`, the response of `get_uve` should have the alarms of all sources whose
acknowledgement equals the filter, and no UVEAlarms when there is none. What is read of the
sources after the last one without such an alarm decides whether it does.

* `storedAlarms_spec`: what is stored of a source's alarms;
* `get_uve_acks_iff`: when the response has the alarms that match.
-/

namespace TfAnalytics.OpServer

open TfAnalytics.Lib

-- ---------------------------------------------------------------------------
-- What the response should have
-- ---------------------------------------------------------------------------

/-- The values in an entry of the response. -/
def Entry.shown : Entry → List Entry
  | .value v => [.value v]
  | .flat f => [.flat f]
  | .sources values => values.map fun value => .value value.1
  | .flatSources values => values.map fun value => .flat value.1
  | .whole => []

variable (B : Builtins) (flat : Bool)

/-- Values with the same JSON text are returned once; this is one of them. -/
def ShownAs (v : AttrValue) (shown : Entry) : Prop :=
  ∃ v', B.dumps v' = B.dumps v ∧ returned B flat v' = some shown

/-- UVEAlarms is left out when no source has alarms that match, and only then; its alarms are
those of these sources, each with the ones that match. -/
def AcksReturned (lists : List AttrValue) (rsp : List (String × List (String × Entry))) : Prop :=
  (rsp.lookup "UVEAlarms" = none ↔ lists = []) ∧
    ∀ entries, rsp.lookup "UVEAlarms" = some entries → ∃ entry,
      entries.lookup "alarms" = some entry ∧
      (∀ shown ∈ entry.shown, ∃ v ∈ lists, returned B flat v = some shown) ∧
      ∀ v ∈ lists, ∃ shown ∈ entry.shown, ShownAs B flat v shown

variable (X : XmlReader) (filters : UveFilters)

/-- The lists of alarms that are stored, without those that have the JSON text of another. -/
def shownLists (os : List Origin) : List AttrValue :=
  firstBy (fun a b => decide (B.dumps a = B.dumps b))
    ((alarmReports X filters os).entries.map Prod.snd)

/-- What the sources have of the attribute, if anything, gets through. -/
def AttrAggregates (stored : List StoredValue) (typ attr : String) : Prop :=
  ∀ oattr, oattr? (sourcesIn flat stored typ attr) = some oattr → Aggregates B flat oattr

/-- The attributes of the struct types that came before UVEAlarms get through. -/
def TypesBefore (stored : List StoredValue) : Prop :=
  ∀ typ ∈ (stored.map (·.origin.typ)).takeWhile (· ≠ "UVEAlarms"), ∀ attr,
    AttrAggregates B flat stored typ attr

/-- So do the attributes of UVEAlarms that came before the alarms. -/
def AttrsBefore (stored : List StoredValue) : Prop :=
  ∀ attr ∈ ((stored.filter (·.origin.typ = "UVEAlarms")).map (·.attr)).takeWhile (· ≠ "alarms"),
    AttrAggregates B flat stored "UVEAlarms" attr

/-- When the response has the alarms that match.

* Where there is none: no source after the last one that clears UVEAlarms stores one of its
  values, or something that came before does not get through.
* Where there are some: what came before gets through, and each source's are stored and read, or
  others with the same JSON text are. -/
def AcksKept (ackfilter : String) (os : List Origin) : Prop :=
  let stored := staying X filters os
  let lists := os.filterMap (matching X ackfilter)
  if lists = [] then
    (afterCleared X filters os).any (keepsAlarms X filters) = false ∨ ¬ TypesBefore B flat stored
  else
    TypesBefore B flat stored ∧ AttrsBefore B flat stored ∧
      (flat = true → ∀ v ∈ shownLists B X filters os, Readable B v.leaves) ∧
      ∀ v ∈ lists, ∃ r ∈ shownLists B X filters os, ∃ shown,
        returned B flat r = some shown ∧ ShownAs B flat v shown

-- ---------------------------------------------------------------------------
-- Entries
-- ---------------------------------------------------------------------------

variable {B flat X filters}

theorem shown_returnedSources {values : List (AttrValue × List String)} {entry : Entry}
    (h : returnedSources B flat values = some entry) (shown : Entry) :
    shown ∈ entry.shown ↔ ∃ v ∈ values.map Prod.fst, returned B flat v = some shown := by
  have hmap : (∃ v ∈ values.map Prod.fst, returned B flat v = some shown) ↔
      ∃ value ∈ values, returned B flat value.1 = some shown := by
    simp only [List.mem_map, exists_exists_and_eq_and]
  rw [hmap]
  cases flat with
  | false =>
    obtain rfl := Option.some.inj h
    simp [Entry.shown, returned]
  | true =>
    have hmany : (values.mapM fun value => (flatten B value.1).map (·, value.2)).map
        Entry.flatSources = some entry → (shown ∈ entry.shown ↔
          ∃ value ∈ values, returned B true value.1 = some shown) := by
      intro h
      obtain ⟨flats, hflats, rfl⟩ := Option.map_eq_some_iff.mp h
      constructor
      · intro hshown
        obtain ⟨f, hf, rfl⟩ := List.mem_map.mp hshown
        obtain ⟨value, hvalue, heq⟩ := (mem_mapM_iff hflats).mp hf
        obtain ⟨g, hg, rfl⟩ := Option.map_eq_some_iff.mp heq
        refine ⟨value, hvalue, ?_⟩
        rw [returned, if_pos rfl, hg]
        rfl
      · rintro ⟨value, hvalue, heq⟩
        obtain ⟨f, hf, rfl⟩ := Option.map_eq_some_iff.mp heq
        refine List.mem_map.mpr ⟨(f, value.2), (mem_mapM_iff hflats).mpr ⟨value, hvalue, ?_⟩, rfl⟩
        rw [hf]
        rfl
    rcases values with _ | ⟨value, _ | ⟨value', rest⟩⟩
    · exact hmany h
    · obtain ⟨f, hf, rfl⟩ := Option.map_eq_some_iff.mp h
      simp [Entry.shown, returned, hf, eq_comm]
    · exact hmany h

/-- An attribute without '@aggtype' is aggregated by default. -/
theorem aggregateAttr_default {oattr : OAttr} (hagg : oattr.first.2.aggtype = none) :
    aggregateAttr B flat oattr =
      .ofOption (returnedSources B flat (_default_agg B oattr)) := by
  have h₁ : _is_elem_sum oattr = false := by simp [_is_elem_sum, hagg]
  have h₂ : _is_struct_sum oattr = false := by simp [_is_struct_sum, hagg]
  have h₃ : _is_list_union oattr = false := by simp [_is_list_union, hagg]
  have h₄ : _is_map_union oattr = false := by simp [_is_map_union, hagg]
  have h₅ : _is_append oattr = false := by simp [_is_append, hagg]
  simp [aggregateAttr, h₁, h₂, h₃, h₄, h₅]

-- ---------------------------------------------------------------------------
-- What is stored
-- ---------------------------------------------------------------------------

/-- What is stored of a source's alarms are those that match. -/
theorem storedAlarms_spec {f : String} (hack : filters.ackfilt = some f) {o : Origin}
    (ho : Reported X o) {v : AttrValue} (h : storedAlarms X filters o = some v) :
    matching X f o = some v ∧ v.aggtype = none := by
  unfold storedAlarms at h
  by_cases htyp : o.typ = "UVEAlarms"
  · rw [if_pos htyp] at h
    obtain ⟨text, htext, hvalue⟩ := Option.bind_eq_some_iff.mp h
    have hmem : ("alarms", text) ∈ o.values.entries := Dict.mem_entries.mpr htext
    rcases @reading_cases X filters o ho _ hmem with hskip | ⟨w, hparse, hread⟩
    · rw [hskip] at hvalue
      cases hvalue
    · obtain ⟨name, size, items, rfl, hitems⟩ := ho.alarms htyp text htext _ w hparse
      rw [hread, hack, htyp, readAttr_list] at hvalue
      by_cases hsize : size = "0"
      · rw [if_pos hsize] at hvalue
        cases hvalue
      · rw [if_neg hsize, if_pos ⟨rfl, rfl⟩, ackedAlarms_eq hitems] at hvalue
        have hmatching : matching X f o =
            if items.filter (fun alarm => ackOf alarm = some f) = [] then none
            else some (.list none name
              (toString (items.filter fun alarm => ackOf alarm = some f).length)
              (items.filter fun alarm => ackOf alarm = some f)) := by
          simp [matching, htyp, htext, hparse]
        rw [hmatching]
        cases halarms : items.filter fun alarm => ackOf alarm = some f with
        | nil =>
          rw [halarms] at hvalue
          cases hvalue
        | cons alarm rest =>
          rw [halarms] at hvalue
          obtain rfl := Option.some.inj hvalue
          exact ⟨if_neg (by simp), rfl⟩
  · rw [if_neg htyp] at h
    cases h

theorem afterCleared_subset (os : List Origin) : afterCleared X filters os ⊆ os := by
  induction os using List.reverseRecOn with
  | nil => exact List.Subset.refl _
  | append_singleton os o ih =>
    rw [afterCleared_snoc]
    split
    · exact List.nil_subset _
    · exact List.append_subset.mpr ⟨fun a ha => List.mem_append_left _ (ih ha),
        List.subset_append_right _ _⟩

/-- A stored list of alarms is a source's. -/
theorem mem_alarmReports {os : List Origin} {v : AttrValue}
    (h : v ∈ (alarmReports X filters os).entries.map Prod.snd) :
    ∃ o ∈ os, storedAlarms X filters o = some v := by
  have hrun : ∀ (kept : List Origin) (source : String), (kept.foldl (fun sources o =>
      addAlarms sources o (storedAlarms X filters o)) Dict.empty).find? source = some v →
        ∃ o ∈ kept, storedAlarms X filters o = some v := by
    intro kept source
    induction kept using List.reverseRecOn with
    | nil => exact fun h => (nomatch h)
    | append_singleton kept o ih =>
      rw [List.foldl_append, List.foldl_cons, List.foldl_nil]
      intro h
      cases hstored : storedAlarms X filters o with
      | none =>
        rw [hstored] at h
        obtain ⟨o', ho', heq⟩ := ih h
        exact ⟨o', List.mem_append_left _ ho', heq⟩
      | some w =>
        rw [hstored, addAlarms, Dict.find?_set] at h
        split at h
        · exact ⟨o, by simp, hstored.trans h⟩
        · obtain ⟨o', ho', heq⟩ := ih h
          exact ⟨o', List.mem_append_left _ ho', heq⟩
  obtain ⟨⟨source, w⟩, hmem, rfl⟩ := List.mem_map.mp h
  obtain ⟨o, ho, heq⟩ := hrun _ source (Dict.mem_entries.mp hmem)
  exact ⟨o, afterCleared_subset os ho, heq⟩

/-- The members of the elements in the state are dictionaries. -/
theorem AllGood.nodup {state : UveDict} (h : AllGood state) :
    ∀ typ ∈ stateTypes state, ∀ attr ∈ typ.2, ∀ e ∈ elements attr.2, (e.map Prod.fst).Nodup := by
  intro typ htyp attr hattr e he
  obtain ⟨⟨name, attrs⟩, hmem, rfl⟩ := List.mem_map.mp htyp
  obtain ⟨⟨objattr, sources⟩, hsources, heq⟩ := List.mem_filterMap.mp hattr
  obtain ⟨oattr, hoattr, rfl⟩ := Option.map_eq_some_iff.mp heq
  have hentries : oattr.sources = sources.entries := by
    cases hlist : sources.entries with
    | nil => simp [oattr?, hlist] at hoattr
    | cons first rest =>
      obtain rfl : OAttr.mk first rest = oattr := by simpa [oattr?, hlist] using hoattr
      rfl
  obtain ⟨source, hsource, hmember⟩ := List.mem_flatMap.mp he
  rw [hentries] at hsource
  refine (h name objattr source.1 source.2 ?_).2 e hmember
  rw [sourcesOf, attrsOf, Dict.mem_entries.mp hmem, Option.getD_some, Dict.mem_entries.mp hsources]
  exact Dict.mem_entries.mp hsource

-- ---------------------------------------------------------------------------
-- The response
-- ---------------------------------------------------------------------------

theorem lookup_oattrs (attrs : Dict String (Dict String AttrValue)) (attr : String) :
    (oattrs attrs).lookup attr = oattr? ((attrs.find? attr).getD .empty) := by
  rw [oattrs, lookup_filterMap_value oattr? attrs.nodup]
  show (attrs.find? attr).bind oattr? = _
  cases attrs.find? attr <;> rfl

theorem oattr?_addValue (sources : Dict String AttrValue) (s : StoredValue) :
    oattr? (addValue flat sources s) ≠ none := by
  have hset : ∀ d : Dict String AttrValue, oattr? (d.set s.origin.dsource s.value) ≠ none := by
    intro d h
    cases hentries : (d.set s.origin.dsource s.value).entries with
    | nil =>
      have hfind := Dict.find?_set d s.origin.dsource s.origin.dsource s.value
      rw [if_pos rfl, Dict.find?, hentries] at hfind
      cases hfind
    | cons first rest => simp [oattr?, hentries] at h
  unfold addValue
  split
  · split
    · exact hset sources
    next hentries =>
      split
      · simp [oattr?, hentries]
      · exact hset .empty
  · exact hset sources

/-- An attribute of the state has a source. -/
theorem oattr?_sourcesIn {stored : List StoredValue} {s : StoredValue} (hs : s ∈ stored) :
    oattr? (sourcesIn flat stored s.origin.typ s.attr) ≠ none := by
  have hmem : s ∈ stored.filter fun s' => s'.origin.typ = s.origin.typ ∧ s'.attr = s.attr :=
    List.mem_filter.mpr ⟨hs, decide_eq_true ⟨rfl, rfl⟩⟩
  obtain ⟨before, last, hlast⟩ :=
    (List.eq_nil_or_concat _).resolve_left (List.ne_nil_of_mem hmem)
  rw [sourcesIn, hlast, List.concat_eq_append, List.foldl_append]
  exact oattr?_addValue _ last

theorem Stores.keys_oattrs {state : UveDict} {stored : List StoredValue}
    (h : Stores flat stored state) (typ : String) :
    (oattrs (attrsOf state typ)).map Prod.fst =
      distinct ((stored.filter (·.origin.typ = typ)).map (·.attr)) := by
  rw [← h.attrs, oattrs, List.map_filterMap, ← List.filterMap_eq_map]
  refine List.filterMap_congr fun e he => ?_
  -- the attribute was stored
  have hkey : e.1 ∈ (attrsOf state typ).entries.map Prod.fst := List.mem_map_of_mem he
  rw [h.attrs, mem_distinct] at hkey
  obtain ⟨s, hs, hattr⟩ := List.mem_map.mp hkey
  obtain ⟨hs, htyp⟩ := List.mem_filter.mp hs
  have hsome := @oattr?_sourcesIn flat stored s hs
  rw [of_decide_eq_true htyp, hattr, ← h.sources, sourcesOf, Dict.mem_entries.mp he,
    Option.getD_some] at hsome
  obtain ⟨oattr, hoattr⟩ := Option.ne_none_iff_exists'.mp hsome
  rw [hoattr]
  rfl

theorem Stores.keys_stateTypes {state : UveDict} {stored : List StoredValue}
    (h : Stores flat stored state) :
    (stateTypes state).map Prod.fst = distinct (stored.map (·.origin.typ)) := by
  rw [← h.types, stateTypes, List.map_map]
  rfl

theorem lookup_stateTypes (state : UveDict) (typ : String) :
    (stateTypes state).lookup typ = (state.find? typ).map oattrs :=
  lookup_map_value oattrs state.entries typ

section

variable {os : List Origin} {state : UveDict}

/-- The state's attribute. -/
theorem Collected.attrAggregates_iff (h : Collected X filters flat os state) {typ attr : String}
    (htyp : typ ∈ state.entries.map Prod.fst) :
    AttrAggregates B flat (staying X filters os) typ attr ↔
      ∀ oattr, (oattrs (attrsOf state typ)).lookup attr = some oattr →
        (aggregateAttr B flat oattr).isDone = true := by
  rw [AttrAggregates, ← h.stores.sources, lookup_oattrs]
  refine forall₂_congr fun oattr hoattr => (aggregateAttr_done_iff ?_).symm
  obtain ⟨e, he, rfl⟩ := List.mem_map.mp htyp
  have hattrs : attrsOf state e.1 = e.2 := by
    rw [attrsOf, Dict.mem_entries.mp he]
    rfl
  have hlookup : (oattrs e.2).lookup attr = some oattr := by
    rw [lookup_oattrs, ← hattrs]
    exact hoattr
  have hnodup : ((oattrs e.2).map Prod.fst).Nodup := by
    rw [← hattrs, h.stores.keys_oattrs]
    exact nodup_distinct _
  exact h.good.nodup (e.1, oattrs e.2) (List.mem_map.mpr ⟨e, he, rfl⟩) (attr, oattr)
    ((mem_iff_lookup hnodup).mpr hlookup)

theorem Collected.typesBefore_iff (h : Collected X filters flat os state) :
    TypesBefore B flat (staying X filters os) ↔
      ∀ typ ∈ (stateTypes state).takeWhile (·.1 ≠ "UVEAlarms"), ∀ attr ∈ typ.2,
        (aggregateAttr B flat attr.2).isDone = true := by
  have hkeys := h.stores.keys_stateTypes
  rw [forall_before_iff (hkeys ▸ nodup_distinct _) "UVEAlarms" fun attrs : List (String × OAttr) =>
    ∀ attr ∈ attrs, (aggregateAttr B flat attr.2).isDone = true, hkeys, TypesBefore]
  refine forall_congr' fun typ => ?_
  rw [mem_takeWhile_distinct]
  refine imp_congr_right fun htyp => ?_
  have hmem : typ ∈ state.entries.map Prod.fst := by
    rw [h.stores.types, mem_distinct]
    exact (List.takeWhile_prefix _).subset htyp
  obtain ⟨attrs, hattrs⟩ : ∃ attrs, state.find? typ = some attrs :=
    Option.isSome_iff_exists.mp (lookup_isSome_iff_mem.mpr hmem)
  have hnodup : ((oattrs attrs).map Prod.fst).Nodup := by
    have := h.stores.keys_oattrs typ
    rw [attrsOf, hattrs, Option.getD_some] at this
    exact this ▸ nodup_distinct _
  rw [lookup_stateTypes, hattrs, Option.map_some, forall_congr' fun attr =>
    h.attrAggregates_iff hmem, attrsOf, hattrs, Option.getD_some]
  constructor
  · intro hall attrs' hattrs' attr hattr
    obtain rfl := Option.some.inj hattrs'
    exact hall attr.1 attr.2 ((mem_iff_lookup hnodup).mp hattr)
  · intro hall attr oattr hlookup
    exact hall _ rfl (attr, oattr) ((mem_iff_lookup hnodup).mpr hlookup)

theorem Collected.attrsBefore_iff (h : Collected X filters flat os state)
    (hhas : hasAlarms state = true) :
    AttrsBefore B flat (staying X filters os) ↔
      ∀ attr ∈ (oattrs (attrsOf state "UVEAlarms")).takeWhile (·.1 ≠ "alarms"),
        (aggregateAttr B flat attr.2).isDone = true := by
  have hkeys := h.stores.keys_oattrs "UVEAlarms"
  rw [forall_before_iff (hkeys ▸ nodup_distinct _) "alarms" fun oattr : OAttr =>
    (aggregateAttr B flat oattr).isDone = true, hkeys, AttrsBefore]
  refine forall_congr' fun attr => ?_
  rw [mem_takeWhile_distinct, h.attrAggregates_iff (lookup_isSome_iff_mem.mp hhas)]

/-- When the response has UVEAlarms. -/
theorem lookup_uvealarms_iff (h : Collected X filters flat os state)
    {entries : List (String × Entry)} :
    (aggregateTypes B flat (stateTypes state)).lookup "UVEAlarms" = some entries ↔
      TypesBefore B flat (staying X filters os) ∧ hasAlarms state = true ∧
        entries = (aggregateAttrs B flat (oattrs (attrsOf state "UVEAlarms"))).1 := by
  rw [lookup_aggregateTypes_iff, ← h.typesBefore_iff, lookup_stateTypes, hasAlarms, attrsOf]
  cases state.find? "UVEAlarms" <;> simp

/-- When it does not. -/
theorem lookup_uvealarms_eq_none_iff (h : Collected X filters flat os state) :
    (aggregateTypes B flat (stateTypes state)).lookup "UVEAlarms" = none ↔
      (afterCleared X filters os).any (keepsAlarms X filters) = false ∨
        ¬ TypesBefore B flat (staying X filters os) := by
  rw [← h.hasAlarms_eq, Option.eq_none_iff_forall_ne_some]
  simp only [ne_eq, lookup_uvealarms_iff h]
  constructor
  · intro hnot
    by_contra hcon
    rw [not_or, Bool.not_eq_false, not_not] at hcon
    exact hnot _ ⟨hcon.2, hcon.1, rfl⟩
  · rintro (hno | hno) entries ⟨hreach, hhas, -⟩
    · rw [hno] at hhas
      cases hhas
    · exact hno hreach

end

theorem map_fst_shownLists {os : List Origin} {oattr : OAttr}
    (h : oattr? (alarmReports X filters os) = some oattr) :
    (_default_agg B oattr).map Prod.fst = shownLists B X filters os := by
  rw [map_fst_default_agg, shownLists]
  cases hentries : (alarmReports X filters os).entries with
  | nil => simp [oattr?, hentries] at h
  | cons first rest =>
    obtain rfl : OAttr.mk first rest = oattr := by simpa [oattr?, hentries] using h
    rfl

/-- A list is shown, so there is a first report. -/
theorem exists_oattr_of_shown {os : List Origin} {v : AttrValue}
    (h : v ∈ shownLists B X filters os) :
    ∃ oattr, oattr? (alarmReports X filters os) = some oattr := by
  cases hentries : (alarmReports X filters os).entries with
  | nil => simp [shownLists, hentries] at h
  | cons first rest => exact ⟨⟨first, rest⟩, by rw [oattr?, hentries]⟩

/-- The alarms have an entry when the aggregation gets to them and reads them. -/
theorem lookup_alarms_iff {os : List Origin} {state : UveDict} {f : String}
    (hack : filters.ackfilt = some f) (hos : ∀ o ∈ os, Reported X o)
    (hcoll : Collected X filters flat os state) (hhas : hasAlarms state = true) {entry : Entry} :
    (aggregateAttrs B flat (oattrs (attrsOf state "UVEAlarms"))).1.lookup "alarms" = some entry ↔
      AttrsBefore B flat (staying X filters os) ∧
        ∃ oattr, oattr? (alarmReports X filters os) = some oattr ∧
          returnedSources B flat (_default_agg B oattr) = some entry := by
  have hlookup : (oattrs (attrsOf state "UVEAlarms")).lookup "alarms" =
      oattr? (alarmReports X filters os) := by
    rw [lookup_oattrs, ← hcoll.alarmsOf_eq]
    rfl
  rw [lookup_aggregateAttrs_iff, ← hcoll.attrsBefore_iff hhas, hlookup]
  refine and_congr_right fun _ => exists_congr fun oattr => and_congr_right fun hoattr => ?_
  have hagg : oattr.first.2.aggtype = none := by
    cases hentries : (alarmReports X filters os).entries with
    | nil => simp [oattr?, hentries] at hoattr
    | cons first rest =>
      obtain rfl : OAttr.mk first rest = oattr := by simpa [oattr?, hentries] using hoattr
      obtain ⟨o, ho, hstored⟩ := @mem_alarmReports X filters os first.2
        (List.mem_map.mpr ⟨first, hentries ▸ List.mem_cons_self, rfl⟩)
      exact (storedAlarms_spec hack (hos o ho) hstored).2
  rw [aggregateAttr_default hagg]
  cases returnedSources B flat (_default_agg B oattr) <;> simp [Outcome.ofOption]

theorem afilter_list_isSome {instances : List UveInstance}
    (hcfilt : filters.cfilt ≠ some .uveAlarms) :
    ∀ o ∈ visited filters instances, (afilter_list filters o.typ).isSome := by
  intro o ho
  obtain ⟨r_inst, -, ho⟩ := List.mem_flatMap.mp ho
  split at ho
  · have hpasses := (List.mem_filter.mp ho).2
    unfold afilter_list
    cases hfilt : filters.cfilt with
    | none => rfl
    | some cfilt =>
      cases cfilt with
      | uveAlarms => exact absurd hfilt hcfilt
      | types attrs =>
        refine lookup_isSome_iff_mem.mpr ?_
        simp only [passes, hfilt, Bool.and_eq_true, decide_eq_true_eq] at hpasses
        exact hpasses.1.1
  · cases ho

/-- With a filter on the acknowledgement there is no failure, and the response has the alarms
that match, over all sources, exactly under the condition. -/
theorem get_uve_acks_iff {ackfilter : String} (hack : filters.ackfilt = some ackfilter)
    (hcfilt : filters.cfilt ≠ some .uveAlarms) {instances : List UveInstance}
    (hos : ∀ o ∈ visited filters instances, Reported X o) :
    (get_uve X filters B flat instances).1 = false ∧
      (AcksReturned B flat ((visited filters instances).filterMap (matching X ackfilter))
          (get_uve X filters B flat instances).2 ↔
        AcksKept B flat X filters ackfilter (visited filters instances)) := by
  have hall : ∀ o ∈ visited filters instances,
      Reported X o ∧ (afilter_list filters o.typ).isSome :=
    fun o ho => ⟨hos o ho, afilter_list_isSome hcfilt o ho⟩
  rw [get_uve_eq B hall]
  refine ⟨rfl, ?_⟩
  generalize visited filters instances = os at hos hall ⊢
  -- the state is made of the sources that were visited and stay
  obtain ⟨state, hstate, hcoll⟩ := @collect_spec X filters flat os hall
  -- a list that is returned is one of a source, filtered
  have hmatching : ∀ v ∈ shownLists B X filters os, v ∈ os.filterMap (matching X ackfilter) := by
    intro v hv
    obtain ⟨o, ho, hstored⟩ := mem_alarmReports (mem_of_mem_firstBy hv)
    exact List.mem_filterMap.mpr ⟨o, ho, (storedAlarms_spec hack (hos o ho) hstored).1⟩
  have hrsp := @lookup_uvealarms_iff B flat X filters os state hcoll
  simp only [AcksKept, hstate]
  -- no source has an alarm that matches: the response is to have no UVEAlarms
  by_cases hlists : os.filterMap (matching X ackfilter) = []
  · rw [if_pos hlists, hlists]
    rw [← lookup_uvealarms_eq_none_iff hcoll]
    constructor
    · exact fun h => h.1.mpr rfl
    · refine fun h => ⟨iff_of_true h rfl, fun entries hentries => ?_⟩
      rw [h] at hentries
      cases hentries
  · -- some source has one: what is returned is read back from the first of the reports
    rw [if_neg hlists]
    constructor
    · rintro ⟨homit, hshow⟩
      obtain ⟨entries, hentries⟩ := Option.ne_none_iff_exists'.mp (mt homit.mp hlists)
      obtain ⟨entry, hentry, -, hshown⟩ := hshow entries hentries
      obtain ⟨hreach, hhas, rfl⟩ := hrsp.mp hentries
      obtain ⟨hbefore, oattr, hoattr, hreturned⟩ :=
        (lookup_alarms_iff hack hos hcoll hhas).mp hentry
      have hmap := @map_fst_shownLists B X filters os oattr hoattr
      refine ⟨hreach, hbefore, ?_, fun v hv => ?_⟩
      · rw [← hmap, ← returnedSources_isSome_iff, hreturned]
        rfl
      · obtain ⟨shown, hmem, has⟩ := hshown v hv
        obtain ⟨r, hr, heq⟩ := (shown_returnedSources hreturned shown).mp hmem
        exact ⟨r, hmap ▸ hr, shown, heq, has⟩
    · rintro ⟨hreach, hbefore, hread, hshown⟩
      -- the list that is shown is of a report, so there is a first one
      obtain ⟨v, hv⟩ := List.exists_mem_of_ne_nil _ hlists
      obtain ⟨r, hr, -⟩ := hshown v hv
      obtain ⟨oattr, hoattr⟩ := exists_oattr_of_shown hr
      have hmap := @map_fst_shownLists B X filters os oattr hoattr
      rw [← hmap, ← returnedSources_isSome_iff] at hread
      obtain ⟨entry, hreturned⟩ := Option.isSome_iff_exists.mp hread
      have hhas : hasAlarms state = true := by
        by_contra hno
        rw [hasAlarms, Option.not_isSome_iff_eq_none] at hno
        rw [← hcoll.alarmsOf_eq, alarmsOf, sourcesOf, attrsOf, hno] at hoattr
        cases hoattr
      -- now the response has UVEAlarms, with the alarms that the sources have
      have hentries := hrsp.mpr ⟨hreach, hhas, rfl⟩
      refine ⟨iff_of_false (by simp [hentries]) hlists, fun entries' hentries' => ?_⟩
      obtain rfl := Option.some.inj (hentries.symm.trans hentries')
      refine ⟨entry, (lookup_alarms_iff hack hos hcoll hhas).mpr
        ⟨hbefore, oattr, hoattr, hreturned⟩, fun shown hmem => ?_, fun v hv => ?_⟩
      · obtain ⟨r, hr, heq⟩ := (shown_returnedSources hreturned shown).mp hmem
        exact ⟨r, hmatching r (hmap ▸ hr), heq⟩
      · obtain ⟨r, hr, shown, heq, has⟩ := hshown v hv
        exact ⟨shown, (shown_returnedSources hreturned shown).mpr ⟨r, hmap.symm ▸ hr, heq⟩, has⟩

-- ---------------------------------------------------------------------------
-- Two sources
-- ---------------------------------------------------------------------------

def ackedText : String :=
  "<alarms type=\"list\"><list type=\"struct\" size=\"1\"><UVEAlarmInfo>" ++
    "<ack type=\"bool\">true</ack></UVEAlarmInfo></list></alarms>"

def unackedText : String :=
  "<alarms type=\"list\"><list type=\"struct\" size=\"1\"><UVEAlarmInfo>" ++
    "<ack type=\"bool\">false</ack></UVEAlarmInfo></list></alarms>"

/-- One alarm, with its acknowledgement. -/
def sampleAlarms (ack : String) : AttrValue :=
  .list none "UVEAlarmInfo" "1" [.struct [("ack", .basic none .bool (some ack))]]

def sampleXmlReader : XmlReader where
  parse text :=
    if text = ackedText then some ("alarms", sampleAlarms "true")
    else if text = unackedText then some ("alarms", sampleAlarms "false")
    else none
  nodup := by
    intro text root v h e he
    have hv : v = sampleAlarms "true" ∨ v = sampleAlarms "false" := by
      split at h
      · simp_all
      · split at h <;> simp_all
    rcases hv with rfl | rfl
    · obtain rfl := List.mem_singleton.mp (show e ∈ [[("ack", _)]] from he)
      exact List.nodup_singleton _
    · obtain rfl := List.mem_singleton.mp (show e ∈ [[("ack", _)]] from he)
      exact List.nodup_singleton _

def sampleOrigin (source text : String) : Origin where
  source := source
  mdule := "contrail-alarm-gen"
  typ := "UVEAlarms"
  values := Dict.empty.set "alarms" text

/-- A source with an acknowledged alarm is read before one without. -/
def sampleInstances : List UveInstance :=
  [⟨true, [sampleOrigin "a" ackedText, sampleOrigin "b" unackedText]⟩]

def sampleAckFilter : UveFilters where
  ackfilt := some "true"

theorem reported_sampleOrigin (source : String) {text : String}
    (h : text = ackedText ∨ text = unackedText) :
    Reported sampleXmlReader (sampleOrigin source text) := by
  have hparse : ∀ root v, sampleXmlReader.parse text = some (root, v) → root = "alarms" ∧
      ∃ ack, v = sampleAlarms ack := by
    intro root v hv
    simp only [sampleXmlReader] at hv
    split at hv
    · simp only [Option.some.injEq, Prod.mk.injEq] at hv
      exact ⟨hv.1.symm, _, hv.2.symm⟩
    · split at hv
      · simp only [Option.some.injEq, Prod.mk.injEq] at hv
        exact ⟨hv.1.symm, _, hv.2.symm⟩
      · cases hv
  have hvalues : ∀ value ∈ (sampleOrigin source text).values.entries, value = ("alarms", text) :=
    fun value hvalue => List.mem_singleton.mp hvalue
  refine ⟨fun value hvalue => ?_, fun value hvalue root v hv => ?_, fun value hvalue htime => ?_,
    fun _ text' htext root v hv => ?_⟩
  · rw [hvalues value hvalue]
    rcases h with rfl | rfl <;> decide
  · rw [hvalues value hvalue] at hv ⊢
    exact (hparse root v hv).1
  · rw [hvalues value hvalue] at htime
    exact absurd (show "alarms" = "__T" from htime) (by decide)
  · obtain rfl : text = text' := Option.some.inj htext
    obtain ⟨-, ack, rfl⟩ := hparse root v hv
    exact ⟨_, _, _, rfl, fun alarm halarm => List.mem_singleton.mp halarm ▸ rfl⟩

/-- The other way round. -/
def sampleReversed : List UveInstance :=
  [⟨true, [sampleOrigin "b" unackedText, sampleOrigin "a" ackedText]⟩]

theorem reported_sample : ∀ o ∈ visited sampleAckFilter sampleInstances ++
    visited sampleAckFilter sampleReversed, Reported sampleXmlReader o := by
  intro o ho
  have hos : o ∈ [sampleOrigin "a" ackedText, sampleOrigin "b" unackedText,
    sampleOrigin "b" unackedText, sampleOrigin "a" ackedText] := ho
  simp only [List.mem_cons, List.not_mem_nil, or_false] at hos
  rcases hos with rfl | rfl | rfl | rfl
  · exact reported_sampleOrigin "a" (.inl rfl)
  · exact reported_sampleOrigin "b" (.inr rfl)
  · exact reported_sampleOrigin "b" (.inr rfl)
  · exact reported_sampleOrigin "a" (.inl rfl)

/-- When the source without such an alarm is read first, the other one's alarm is returned. -/
theorem get_uve_acks_sample :
    AcksReturned default false
      ((visited sampleAckFilter sampleReversed).filterMap (matching sampleXmlReader "true"))
      (get_uve sampleXmlReader sampleAckFilter default false sampleReversed).2 := by
  refine (get_uve_acks_iff rfl (by simp [sampleAckFilter])
    fun o ho => reported_sample o (List.mem_append_right _ ho)).2.mpr ?_
  have hlists : (visited sampleAckFilter sampleReversed).filterMap
      (matching sampleXmlReader "true") = [sampleAlarms "true"] := rfl
  have hshown : (shownLists default sampleXmlReader sampleAckFilter
      (visited sampleAckFilter sampleReversed)).length = 1 := by decide +kernel
  have htypes : ((staying sampleXmlReader sampleAckFilter (visited sampleAckFilter
      sampleReversed)).map (·.origin.typ)).takeWhile (· ≠ "UVEAlarms") = [] := by decide +kernel
  have hattrs : (((staying sampleXmlReader sampleAckFilter (visited sampleAckFilter
      sampleReversed)).filter (·.origin.typ = "UVEAlarms")).map (·.attr)).takeWhile
        (· ≠ "alarms") = [] := by decide +kernel
  simp only [AcksKept, hlists, TypesBefore, AttrsBefore, htypes, hattrs]
  rw [if_neg (by simp)]
  refine ⟨fun _ h => absurd h List.not_mem_nil, fun _ h => absurd h List.not_mem_nil,
    fun h => absurd h Bool.false_ne_true, fun v _ => ?_⟩
  obtain ⟨r, hr⟩ := List.exists_mem_of_length_pos (hshown ▸ Nat.one_pos)
  exact ⟨r, hr, _, rfl, r, rfl, rfl⟩

/-- The second source takes the first one's alarm away. -/
theorem not_acksReturned : ¬ ∀ instances : List UveInstance,
    (∀ o ∈ visited sampleAckFilter instances, Reported sampleXmlReader o) →
      AcksReturned default false
        ((visited sampleAckFilter instances).filterMap (matching sampleXmlReader "true"))
        (get_uve sampleXmlReader sampleAckFilter default false instances).2 := by
  intro h
  have hlists : (visited sampleAckFilter sampleInstances).filterMap
      (matching sampleXmlReader "true") = [sampleAlarms "true"] := rfl
  have hempty : (get_uve sampleXmlReader sampleAckFilter default false
      sampleInstances).2.isEmpty = true := by decide +kernel
  have homit := (h sampleInstances fun o ho =>
    reported_sample o (List.mem_append_left _ ho)).1
  rw [hlists, List.isEmpty_iff.mp hempty] at homit
  exact absurd (homit.mp rfl) (by simp)

end TfAnalytics.OpServer
