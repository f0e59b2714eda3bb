import TfAnalytics.OpServer.ListAppend

/-!
# Analytics API — aggregation over the sources

`ParallelAggregator.aggregate` (uveserver.py) goes through the struct types of a UVE and their
attributes and joins the sources of each attribute, by a routine that the type and the
annotation of the first source select. One exception ends the whole loop, and what was built so
far is returned.

* `aggregateAttr_done_iff`: when the aggregation of an attribute gets through;
* `aggregate_complete_iff`: when the result has all attributes.
-/

namespace TfAnalytics.OpServer

open TfAnalytics.Lib

/-- The state of a UVE: the struct types with their attributes, and the sources of each.
Dictionaries have each key once. -/
structure UveState where
  types : List (String × List (String × OAttr))
  nodup : (types.map Prod.fst).Nodup
  nodupAttrs : ∀ typ ∈ types, (typ.2.map Prod.fst).Nodup
  nodupMembers : ∀ typ ∈ types, ∀ attr ∈ typ.2, ∀ e ∈ elements attr.2, (e.map Prod.fst).Nodup

-- ---------------------------------------------------------------------------
-- Which routine
-- ---------------------------------------------------------------------------

def _is_elem_sum (oattr : OAttr) : Bool :=
  oattr.first.2.isCounter && oattr.first.2.aggtype = some .sum

def _is_struct_sum (oattr : OAttr) : Bool :=
  oattr.first.2.type = .struct && oattr.first.2.aggtype = some .sum

def _is_list_union (oattr : OAttr) : Bool :=
  oattr.first.2.type = .list && oattr.first.2.aggtype = some .union

def _is_map_union (oattr : OAttr) : Bool :=
  oattr.first.2.type = .map && oattr.first.2.aggtype = some .union

def _is_append (oattr : OAttr) : Bool :=
  oattr.first.2.type = .list && oattr.first.2.aggtype = some .append

-- ---------------------------------------------------------------------------
-- The routines
-- ---------------------------------------------------------------------------

variable (B : Builtins)

def _elem_sum_agg (oattr : OAttr) : Option AttrValue := do
  let counts ← oattr.sources.mapM fun source => source.2.text.bind B.int
  some (oattr.first.2.withText (toString counts.sum))

/-- The struct's name in `result`. -/
def structName : AttrValue → Option String
  | .struct _ name _ => some name
  | .basic .. | .list .. | .textMap .. | .structMap .. => none

/-- `sval[sname].items()`; an empty struct is None. -/
def structMembers (sname : String) : AttrValue → Option Members
  | .struct _ name members => if members ≠ [] ∧ name = sname then some members else none
  | .basic .. | .list .. | .textMap .. | .structMap .. => none

/-- One member: `cmap` has the type and the sum of each integer. -/
def sumMember (cmap : List (String × BasicType × Int)) (member : String × AttrValue) :
    Option (List (String × BasicType × Int)) :=
  match member.2 with
  | .basic _ t text =>
    if t.isCounter then do
      let n ← text.bind B.int
      if (cmap.lookup member.1).isSome then
        some (cmap.map fun c => if c.1 = member.1 then (c.1, c.2.1, c.2.2 + n) else c)
      else some (cmap ++ [(member.1, t, n)])
    else some cmap
  | .struct .. | .list .. | .textMap .. | .structMap .. => some cmap

def _struct_sum_agg (oattr : OAttr) : Option AttrValue := do
  let sname ← structName oattr.first.2
  let members ← oattr.sources.mapM fun source => structMembers sname source.2
  let cmap ← members.flatten.foldlM (sumMember B) []
  some (.struct oattr.first.2.aggtype sname
    (cmap.map fun c => (c.1, .basic none c.2.1 (some (toString c.2.2)))))

/-- Elements with the same JSON text. -/
def sameElem (a b : Elem) : Bool := B.dumpsElem a = B.dumpsElem b

def _list_union_agg (oattr : OAttr) : Option AttrValue := do
  let sname ← get_list_name oattr.first.2
  let lists ← oattr.sources.mapM fun source => listItems sname source.2
  let items := firstBy (sameElem B) lists.flatten
  some (.list oattr.first.2.aggtype sname (toString items.length) items)

/-- The struct's name in `attr['map']`; a map without entries has none. -/
def mapName : AttrValue → Option (Option String)
  | .textMap .. => some none
  | .structMap _ name entries => some (if entries.isEmpty then none else some name)
  | .basic .. | .struct .. | .list .. => none

/-- The first two characters of a text. -/
def textPair : Option String → Option (Option String × Option String)
  | none => none
  | some s =>
    match s.toList with
    | a :: b :: _ => some (some (String.singleton a), some (String.singleton b))
    | [] | [_] => none

/-- `element[subidx*2]` and `element[subidx*2 + 1]`. In a map to structs `element` has the keys
only: of one key, which is not in a list, these are characters, and of several keys the last is
beyond the end. -/
def textEntries : AttrValue → Option (List (Option String × Option String))
  | .textMap _ entries => some entries
  | .structMap _ _ [] => some []
  | .structMap _ _ [entry] => do
    let pair ← textPair entry.1
    some [pair]
  | .structMap _ _ (_ :: _ :: _) => none
  | .basic .. | .struct .. | .list .. => none

/-- `element[idx]` and `attr['map'][sname][idx]`. -/
def structEntries (sname : String) : AttrValue → Option (List (Option String × Members))
  | .structMap _ name entries => if entries ≠ [] ∧ name = sname then some entries else none
  | .basic .. | .struct .. | .list .. | .textMap .. => none

/-- The keys have their source before them. -/
def fromSource {β : Type} (source : String) (entries : List (Option String × β)) :
    List (Option String × β) :=
  entries.map fun entry => (some (source ++ ":" ++ B.dumpsKey entry.1), entry.2)

def _map_union_agg (oattr : OAttr) : Option AttrValue := do
  let name ← mapName oattr.first.2
  match name with
  | none =>
    let entries ← oattr.sources.mapM fun source => do
      let entries ← textEntries source.2
      some (fromSource B source.1 entries)
    some (.textMap oattr.first.2.aggtype entries.flatten)
  | some sname =>
    let entries ← oattr.sources.mapM fun source => do
      let entries ← structEntries sname source.2
      some (fromSource B source.1 entries)
    some (.structMap oattr.first.2.aggtype sname entries.flatten)

/-- Each value with its sources. -/
def _default_agg (oattr : OAttr) : List (AttrValue × List String) :=
  oattr.sources.foldl (fun result source =>
    if result.any fun items => B.dumps items.1 = B.dumps source.2 then
      result.map fun items =>
        if B.eq items.1 source.2 then (items.1, items.2 ++ [source.1]) else items
    else result ++ [(source.2, [source.1])]) []

-- ---------------------------------------------------------------------------
-- aggregate
-- ---------------------------------------------------------------------------

/-- `result[typ][objattr]`. -/
inductive Entry
  | value (v : AttrValue)
  | flat (f : Flat)
  | sources (values : List (AttrValue × List String))
  | flatSources (values : List (Flat × List String))
  /-- The result itself. -/
  | whole

/-- The aggregation of an attribute gets through, or raises an exception with an entry that may
have been assigned before. -/
inductive Outcome
  | done (entry : Entry)
  | raised (assigned : Option Entry)

def Outcome.ofOption : Option Entry → Outcome
  | some entry => .done entry
  | none => .raised none

/-- A value as it is returned. -/
def returned (flat : Bool) (v : AttrValue) : Option Entry :=
  if flat then (flatten B v).map .flat else some (.value v)

/-- The values of the sources as they are returned. -/
def returnedSources (flat : Bool) (values : List (AttrValue × List String)) : Option Entry :=
  if flat then
    match values with
    | [value] => (flatten B value.1).map .flat
    | values => (values.mapM fun value => (flatten B value.1).map (·, value.2)).map .flatSources
  else some (.sources values)

/-- What `consolidate_list` returns as it is returned; the whole result has no '@type'. -/
def returnedList (flat : Bool) : Consolidated → Option Entry
  | .whole => if flat then none else some .whole
  | .list v => returned B flat v

/-- An append list is assigned before it is consolidated. -/
def aggregateAppend (flat : Bool) (oattr : OAttr) : Outcome :=
  match _append_agg oattr with
  | none => .raised none
  | some appended =>
    match (consolidate_list B appended).bind (returnedList B flat) with
    | some entry => .done entry
    | none => .raised (some (.value appended))

def aggregateAttr (flat : Bool) (oattr : OAttr) : Outcome :=
  if _is_elem_sum oattr then .ofOption ((_elem_sum_agg B oattr).bind (returned B flat))
  else if _is_struct_sum oattr then .ofOption ((_struct_sum_agg B oattr).bind (returned B flat))
  else if _is_list_union oattr then .ofOption ((_list_union_agg B oattr).bind (returned B flat))
  else if _is_map_union oattr then .ofOption ((_map_union_agg B oattr).bind (returned B flat))
  else if _is_append oattr then aggregateAppend B flat oattr
  else .ofOption (returnedSources B flat (_default_agg B oattr))

/-- The attributes of a struct type, and whether all were gone through. -/
def aggregateAttrs (flat : Bool) : List (String × OAttr) → List (String × Entry) × Bool
  | [] => ([], true)
  | (objattr, oattr) :: rest =>
    match aggregateAttr B flat oattr with
    | .done entry =>
      let result := aggregateAttrs flat rest
      ((objattr, entry) :: result.1, result.2)
    | .raised assigned => ((assigned.map (objattr, ·)).toList, false)

def aggregateTypes (flat : Bool) :
    List (String × List (String × OAttr)) → List (String × List (String × Entry))
  | [] => []
  | (typ, attrs) :: rest =>
    let result := aggregateAttrs B flat attrs
    (typ, result.1) :: if result.2 then aggregateTypes flat rest else []

/-- `ParallelAggregator.aggregate`. -/
def aggregate (state : UveState) (flat : Bool) : List (String × List (String × Entry)) :=
  aggregateTypes B flat state.types

-- ---------------------------------------------------------------------------
-- What each routine needs of the sources
-- ---------------------------------------------------------------------------

/-- A text is there, and `int` reads it. -/
def IntText (text : Option String) : Prop := ∃ s, text = some s ∧ (B.int s).isSome

/-- Every source has the first one's struct, not empty, and its integers are read. -/
def StructSums (oattr : OAttr) : Prop :=
  ∃ sname, structName oattr.first.2 = some sname ∧
    ∀ source ∈ oattr.sources, ∃ aggtype members, source.2 = .struct aggtype sname members ∧
      members ≠ [] ∧ ∀ member ∈ members, member.2.isCounter = true → IntText B member.2.text

/-- Every source has a list of the same elements, not empty. -/
def SameLists (oattr : OAttr) : Prop :=
  ∃ sname, ∀ source ∈ oattr.sources, ∃ aggtype size items,
    source.2 = .list aggtype sname size items ∧ items ≠ []

/-- The elements of all sources, one behind the other. -/
def allItems (oattr : OAttr) : List Elem :=
  oattr.sources.flatMap fun source => source.2.items.getD []

/-- A map that is read as one to texts. -/
def ReadsAsTexts : AttrValue → Prop
  | .textMap .. => True
  | .structMap _ _ [] => True
  | .structMap _ _ [entry] => ∃ s, entry.1 = some s ∧ 2 ≤ s.toList.length
  | .structMap _ _ (_ :: _ :: _) => False
  | .basic .. | .struct .. | .list .. => False

/-- The first source's map is one to texts or empty, and all are read so; or every source has a
map to the same structs, not empty. -/
def MapsUnite (flat : Bool) (oattr : OAttr) : Prop :=
  (mapName oattr.first.2 = some none ∧ ∀ source ∈ oattr.sources, ReadsAsTexts source.2) ∨
    ∃ sname, ∀ source ∈ oattr.sources, ∃ aggtype entries,
      source.2 = .structMap aggtype sname entries ∧ entries ≠ [] ∧
        (flat = true → ∀ entry ∈ entries, Readable B (leavesMembers entry.2))

/-- The elements can be consolidated: the first is a struct; where it has no key the list is not
flattened; where it has one all elements are structs, with what the consolidation needs, and the
first element of each key can be flattened. -/
def ItemsConsolidate (flat : Bool) (items : List Elem) : Prop :=
  ∃ first, items.head?.bind Elem.members = some first ∧
    (_get_list_key first = "" → flat = false) ∧
    (_get_list_key first ≠ "" → ∃ elems, items.mapM Elem.members = some elems ∧
      Consolidates B (_get_list_key first) elems ∧
      (flat = true → ∀ e ∈ firstBy (sameKey (_get_list_key first)) elems,
        Readable B (leavesMembers e)))

/-- When the aggregation of an attribute gets through. -/
def Aggregates (flat : Bool) (oattr : OAttr) : Prop :=
  if _is_elem_sum oattr then ∀ source ∈ oattr.sources, IntText B source.2.text
  else if _is_struct_sum oattr then StructSums B oattr
  else if _is_list_union oattr then SameLists oattr ∧
    (flat = true → ∀ elem ∈ firstBy (sameElem B) (allItems oattr), Readable B elem.leaves)
  else if _is_map_union oattr then MapsUnite B flat oattr
  else if _is_append oattr then SameLists oattr ∧ ItemsConsolidate B flat (allItems oattr)
  else flat = true → ∀ v ∈ firstBy (fun a b => decide (B.dumps a = B.dumps b))
    (oattr.sources.map Prod.snd), Readable B v.leaves

/-- An append list that is joined at least. -/
def Joins (oattr : OAttr) : Prop := _is_append oattr = true ∧ SameLists oattr

-- ---------------------------------------------------------------------------
-- The lists of the sources
-- ---------------------------------------------------------------------------

variable {B} {flat : Bool} {oattr : OAttr}

def Outcome.isDone : Outcome → Bool
  | .done _ => true
  | .raised _ => false

@[simp] theorem Outcome.isDone_ofOption (entry : Option Entry) :
    (Outcome.ofOption entry).isDone = entry.isSome := by
  cases entry <;> rfl

theorem isSome_bind_iff {α β : Type} {a : Option α} {f : α → Option β} :
    (a.bind f).isSome ↔ ∃ x, a = some x ∧ (f x).isSome := by
  cases a <;> simp

theorem returned_isSome_iff (v : AttrValue) :
    (returned B flat v).isSome ↔ (flat = true → Readable B v.leaves) := by
  cases flat with
  | false => simp [returned]
  | true => simp [returned, flatten_isSome_iff]

/-- The source's list has the name and is not empty. -/
theorem listItems_isSome_iff {sname : String} {v : AttrValue} :
    (listItems sname v).isSome ↔
      ∃ aggtype size items, v = .list aggtype sname size items ∧ items ≠ [] := by
  cases v with
  | list aggtype name size items =>
    by_cases h : items ≠ [] ∧ name = sname
    · obtain ⟨hne, rfl⟩ := h
      simp [listItems, hne]
    · simp only [listItems, if_neg h, Option.isSome_none, Bool.false_eq_true, false_iff]
      rintro ⟨_, _, _, heq, hne⟩
      cases heq
      exact h ⟨hne, rfl⟩
  | _ => simp [listItems]

theorem listItems_eq {sname : String} {v : AttrValue} (h : (listItems sname v).isSome) :
    listItems sname v = some (v.items.getD []) := by
  obtain ⟨_, _, items, rfl, hne⟩ := listItems_isSome_iff.mp h
  rw [listItems, if_pos ⟨hne, rfl⟩]
  rfl

/-- The lists of the sources are there, under the first one's name. -/
theorem SameLists.lists (h : SameLists oattr) :
    ∃ sname lists, get_list_name oattr.first.2 = some sname ∧
      oattr.sources.mapM (fun source => listItems sname source.2) = some lists ∧
      lists.flatten = allItems oattr ∧ allItems oattr ≠ [] := by
  obtain ⟨sname, hall⟩ := h
  obtain ⟨_, _, items, heq, hne⟩ := hall oattr.first List.mem_cons_self
  have hlists := mapM_eq_some_map fun source hsource =>
    listItems_eq (listItems_isSome_iff.mpr (hall source hsource))
  refine ⟨sname, _, by simp [heq, get_list_name, hne], hlists, (List.flatMap_def ..).symm, ?_⟩
  intro hnil
  have hfirst := List.flatMap_eq_nil_iff.mp hnil oattr.first List.mem_cons_self
  rw [heq] at hfirst
  exact hne hfirst

/-- Some source's list is missing under any name. -/
theorem lists_eq_none (h : ¬ SameLists oattr) (sname : String) :
    oattr.sources.mapM (fun source => listItems sname source.2) = none := by
  rw [← Option.not_isSome_iff_eq_none, mapM_isSome_iff]
  exact fun hall => h ⟨sname, fun source hsource => listItems_isSome_iff.mp (hall source hsource)⟩

theorem _append_agg_eq (h : SameLists oattr) : ∃ sname, _append_agg oattr =
    some (.list oattr.first.2.aggtype sname (toString (allItems oattr).length)
      (allItems oattr)) := by
  obtain ⟨sname, lists, hname, hlists, hflat, -⟩ := h.lists
  refine ⟨sname, ?_⟩
  simp only [_append_agg, hname, hlists, Option.bind_eq_bind, Option.bind_some, hflat]

theorem _append_agg_eq_none (h : ¬ SameLists oattr) : _append_agg oattr = none := by
  unfold _append_agg
  cases get_list_name oattr.first.2 with
  | none => rfl
  | some sname =>
    rw [Option.bind_eq_bind, Option.bind_some, lists_eq_none h]
    rfl

-- ---------------------------------------------------------------------------
-- The routines get through
-- ---------------------------------------------------------------------------

theorem intText_iff {text : Option String} : IntText B text ↔ (text.bind B.int).isSome := by
  rw [isSome_bind_iff, IntText]

/-- The sum of texts is a text that is read again. -/
theorem elem_sum_isSome_iff (hkind : _is_elem_sum oattr = true) :
    ((_elem_sum_agg B oattr).bind (returned B flat)).isSome ↔
      ∀ source ∈ oattr.sources, IntText B source.2.text := by
  obtain ⟨aggtype, t, text, hfirst, ht⟩ :
      ∃ a t s, oattr.first.2 = .basic a t s ∧ t.isCounter = true := by
    have hcounter := (Bool.and_eq_true_iff.mp hkind).1
    cases hv : oattr.first.2 with
    | basic a t s =>
      rw [hv] at hcounter
      exact ⟨a, t, s, rfl, hcounter⟩
    | _ =>
      rw [hv] at hcounter
      cases hcounter
  simp only [intText_iff]
  rw [← mapM_isSome_iff, _elem_sum_agg]
  cases hcounts : oattr.sources.mapM fun source => source.2.text.bind B.int with
  | none => simp
  | some counts =>
    simp only [Option.bind_eq_bind, Option.bind_some, returned_isSome_iff, hfirst,
      AttrValue.withText, AttrValue.leaves, Option.isSome_some, iff_true]
    intro _ leaf hleaf
    rw [List.mem_singleton.mp hleaf]
    exact reads_toString ht _

theorem list_union_isSome_iff :
    ((_list_union_agg B oattr).bind (returned B flat)).isSome ↔ SameLists oattr ∧
      (flat = true → ∀ elem ∈ firstBy (sameElem B) (allItems oattr), Readable B elem.leaves) := by
  by_cases h : SameLists oattr
  · obtain ⟨sname, lists, hname, hlists, hflat, -⟩ := h.lists
    simp only [_list_union_agg, hname, hlists, Option.bind_eq_bind, Option.bind_some, hflat,
      returned_isSome_iff, AttrValue.leaves, readable_elems, h, true_and]
  · have hnone : _list_union_agg B oattr = none := by
      unfold _list_union_agg
      cases get_list_name oattr.first.2 with
      | none => rfl
      | some sname =>
        rw [Option.bind_eq_bind, Option.bind_some, lists_eq_none h]
        rfl
    simp [hnone, h]

/-- The source's struct has the name and is not empty. -/
theorem structMembers_isSome_iff {sname : String} {v : AttrValue} :
    (structMembers sname v).isSome ↔
      ∃ aggtype members, v = .struct aggtype sname members ∧ members ≠ [] := by
  cases v with
  | struct aggtype name members =>
    by_cases h : members ≠ [] ∧ name = sname
    · obtain ⟨hne, rfl⟩ := h
      simp [structMembers, hne]
    · simp only [structMembers, if_neg h, Option.isSome_none, Bool.false_eq_true, false_iff]
      rintro ⟨_, _, heq, hne⟩
      cases heq
      exact h ⟨hne, rfl⟩
  | _ => simp [structMembers]

/-- A member that can be added. -/
def MemberSums (B : Builtins) (member : String × AttrValue) : Prop :=
  member.2.isCounter = true → IntText B member.2.text

theorem sumMember_isSome_iff (cmap : List (String × BasicType × Int))
    (member : String × AttrValue) : (sumMember B cmap member).isSome ↔ MemberSums B member := by
  obtain ⟨name, v⟩ := member
  cases v with
  | basic aggtype t text =>
    rw [MemberSums, intText_iff]
    by_cases ht : t.isCounter = true
    · cases hint : text.bind B.int with
      | none => simp [sumMember, AttrValue.isCounter, AttrValue.type, AttrValue.text, ht, hint]
      | some n =>
        simp only [sumMember, AttrValue.isCounter, AttrValue.type, AttrValue.text, ht, hint,
          if_true, Option.bind_eq_bind, Option.bind_some]
        split <;> simp
    · simp [sumMember, AttrValue.isCounter, AttrValue.type, ht]
  | _ => simp [sumMember, MemberSums, AttrValue.isCounter, AttrValue.type]

/-- The sums keep the types of the members. -/
theorem sumMember_counters {cmap cmap' : List (String × BasicType × Int)}
    {member : String × AttrValue} (h : ∀ c ∈ cmap, c.2.1.isCounter = true)
    (hstep : sumMember B cmap member = some cmap') : ∀ c ∈ cmap', c.2.1.isCounter = true := by
  obtain ⟨name, v⟩ := member
  cases v with
  | basic aggtype t text =>
    by_cases ht : t.isCounter = true
    · simp only [sumMember, ht, if_true, Option.bind_eq_bind] at hstep
      obtain ⟨n, -, hstep⟩ := Option.bind_eq_some_iff.mp hstep
      split at hstep
      · obtain rfl := Option.some.inj hstep
        rw [List.forall_mem_map]
        intro c hc
        split
        · exact h c hc
        · exact h c hc
      · obtain rfl := Option.some.inj hstep
        intro c hc
        rcases List.mem_append.mp hc with hc | hc
        · exact h c hc
        · rw [List.mem_singleton.mp hc]
          exact ht
    · simp only [sumMember, ht] at hstep
      exact Option.some.inj hstep ▸ h
  | _ => exact Option.some.inj hstep ▸ h

/-- The sums are texts that are read again. -/
theorem sums_returned {cmap : List (String × BasicType × Int)}
    (h : ∀ c ∈ cmap, c.2.1.isCounter = true) (aggtype : Option AggType) (sname : String) :
    (returned B flat (.struct aggtype sname
      (cmap.map fun c => (c.1, .basic none c.2.1 (some (toString c.2.2)))))).isSome := by
  rw [returned_isSome_iff, AttrValue.leaves, readable_members, List.forall_mem_map]
  intro _ c hc leaf hleaf
  rw [List.mem_singleton.mp hleaf]
  exact reads_toString (h c hc) _

theorem struct_sum_isSome_iff :
    ((_struct_sum_agg B oattr).bind (returned B flat)).isSome ↔ StructSums B oattr := by
  unfold _struct_sum_agg StructSums
  cases hname : structName oattr.first.2 with
  | none => simp
  | some sname =>
    simp only [Option.some.injEq, exists_eq_left', Option.bind_eq_bind, Option.bind_some]
    by_cases hall : ∀ source ∈ oattr.sources, (structMembers sname source.2).isSome
    · rw [mapM_eq_some_map fun source hsource => eq_some_getD (hall source hsource) []]
      obtain ⟨hiff, hcounters⟩ := foldlM_isSome_iff_forall (Q := MemberSums B)
        (fun cmap member _ => sumMember_isSome_iff cmap member)
        (fun _ _ _ => sumMember_counters)
        (oattr.sources.map fun source => (structMembers sname source.2).getD []).flatten []
        (by simp)
      have hmembers : (∀ member ∈ (oattr.sources.map fun source =>
          (structMembers sname source.2).getD []).flatten, MemberSums B member) ↔
          ∀ source ∈ oattr.sources, ∃ aggtype members, source.2 = .struct aggtype sname members ∧
            members ≠ [] ∧ ∀ member ∈ members, MemberSums B member := by
        rw [← List.flatMap_def]
        simp only [List.mem_flatMap, forall_exists_index, and_imp]
        refine ⟨fun h source hsource => ?_, fun h member source hsource hmember => ?_⟩
        · obtain ⟨aggtype, members, heq, hne⟩ := structMembers_isSome_iff.mp (hall source hsource)
          refine ⟨aggtype, members, heq, hne, fun member hmember => h member source hsource ?_⟩
          simpa [heq, structMembers, hne] using hmember
        · obtain ⟨aggtype, members, heq, hne, hsums⟩ := h source hsource
          exact hsums member (by simpa [heq, structMembers, hne] using hmember)
      rw [Option.bind_some]
      refine Iff.trans ?_ (hiff.trans hmembers)
      cases hcmap : (oattr.sources.map fun source =>
          (structMembers sname source.2).getD []).flatten.foldlM (sumMember B) [] with
      | none => simp
      | some cmap =>
        rw [Option.bind_some, Option.bind_some]
        exact iff_of_true (sums_returned (hcounters cmap hcmap) _ _) rfl
    · have hnone : oattr.sources.mapM (fun source => structMembers sname source.2) = none := by
        rwa [← Option.not_isSome_iff_eq_none, mapM_isSome_iff]
      rw [hnone]
      simp only [Option.bind_none, Option.isSome_none, Bool.false_eq_true, false_iff]
      intro hsums
      refine hall fun source hsource => structMembers_isSome_iff.mpr ?_
      obtain ⟨aggtype, members, heq, hne, -⟩ := hsums source hsource
      exact ⟨aggtype, members, heq, hne⟩

theorem textPair_isSome_iff {key : Option String} :
    (textPair key).isSome ↔ ∃ s, key = some s ∧ 2 ≤ s.toList.length := by
  cases key with
  | none => simp [textPair]
  | some s =>
    rw [textPair]
    split
    · rename_i h
      simp [h]
    · rename_i h
      simp [h]
    · rename_i h
      simp [h]

theorem textEntries_isSome_iff (v : AttrValue) : (textEntries v).isSome ↔ ReadsAsTexts v := by
  cases v with
  | textMap aggtype entries => simp [textEntries, ReadsAsTexts]
  | structMap aggtype name entries =>
    match entries with
    | [] => simp [textEntries, ReadsAsTexts]
    | [entry] =>
      rw [ReadsAsTexts, ← textPair_isSome_iff, textEntries]
      cases textPair entry.1 <;> simp
    | _ :: _ :: _ => simp [textEntries, ReadsAsTexts]
  | _ => simp [textEntries, ReadsAsTexts]

/-- The source's map to structs has the name and is not empty. -/
theorem structEntries_isSome_iff {sname : String} {v : AttrValue} :
    (structEntries sname v).isSome ↔
      ∃ aggtype entries, v = .structMap aggtype sname entries ∧ entries ≠ [] := by
  cases v with
  | structMap aggtype name entries =>
    by_cases h : entries ≠ [] ∧ name = sname
    · obtain ⟨hne, rfl⟩ := h
      simp [structEntries, hne]
    · simp only [structEntries, if_neg h, Option.isSome_none, Bool.false_eq_true, false_iff]
      rintro ⟨_, _, heq, hne⟩
      cases heq
      exact h ⟨hne, rfl⟩
  | _ => simp [structEntries]

/-- Only a map to structs that is not empty has a name. -/
theorem mapName_eq_some {v : AttrValue} {sname : String} :
    mapName v = some (some sname) ↔ ∃ aggtype entries, v = .structMap aggtype sname entries ∧
      entries ≠ [] := by
  cases v with
  | structMap aggtype name entries => cases entries <;> simp [mapName]
  | _ => simp [mapName]

theorem mapM_fromSource_isSome_iff {β : Type}
    (f : AttrValue → Option (List (Option String × β))) :
    (oattr.sources.mapM fun source =>
        (f source.2).bind fun entries => some (fromSource B source.1 entries)).isSome ↔
      ∀ source ∈ oattr.sources, (f source.2).isSome := by
  rw [mapM_isSome_iff]
  refine forall₂_congr fun source _ => ?_
  cases f source.2 <;> simp

theorem map_union_isSome_iff (hkind : _is_map_union oattr = true) :
    ((_map_union_agg B oattr).bind (returned B flat)).isSome ↔ MapsUnite B flat oattr := by
  unfold _map_union_agg MapsUnite
  -- the first source says what kind of map it is: of texts, or of structs of one name
  cases hname : mapName oattr.first.2 with
  | none =>
    have htype := (Bool.and_eq_true_iff.mp hkind).1
    cases hv : oattr.first.2 <;> simp [hv, mapName, AttrValue.type] at hname htype
  | some name =>
    cases name with
    | none =>
      -- a first source without structs: the sources are all to have maps of texts
      have hnot : ¬ ∃ sname, ∀ source ∈ oattr.sources, ∃ aggtype entries,
          source.2 = .structMap aggtype sname entries ∧ entries ≠ [] ∧
            (flat = true → ∀ entry ∈ entries, Readable B (leavesMembers entry.2)) := by
        rintro ⟨sname, hall⟩
        obtain ⟨aggtype, entries, heq, hne, -⟩ := hall oattr.first List.mem_cons_self
        rw [mapName_eq_some.mpr ⟨aggtype, entries, heq, hne⟩] at hname
        cases hname
      simp only [hnot, or_false, true_and, Option.bind_eq_bind, Option.bind_some,
        ← textEntries_isSome_iff]
      rw [← mapM_fromSource_isSome_iff (B := B) (fun v => textEntries v)]
      cases oattr.sources.mapM fun source =>
          (textEntries source.2).bind fun entries => some (fromSource B source.1 entries) with
      | none => simp
      | some entries =>
        refine iff_of_true ?_ rfl
        rw [Option.bind_some, Option.bind_some, returned_isSome_iff]
        exact fun _ => readable_nil
    | some sname =>
      -- a first source with structs: the others are to have structs of the same name
      have hname' : ∀ sname', (∀ source ∈ oattr.sources, ∃ aggtype entries,
          source.2 = .structMap aggtype sname' entries ∧ entries ≠ [] ∧
            (flat = true → ∀ entry ∈ entries, Readable B (leavesMembers entry.2))) →
          sname' = sname := by
        intro sname' hall
        obtain ⟨aggtype, entries, heq, hne, -⟩ := hall oattr.first List.mem_cons_self
        rw [mapName_eq_some.mpr ⟨aggtype, entries, heq, hne⟩] at hname
        exact Option.some.inj (Option.some.inj hname)
      simp only [Option.some.injEq, reduceCtorEq, false_and, false_or, Option.bind_eq_bind,
        Option.bind_some]
      -- all have: the entries are put together, and read if the answer is flat
      by_cases hall : ∀ source ∈ oattr.sources, (structEntries sname source.2).isSome
      · rw [mapM_eq_some_map (g := fun source =>
            fromSource B source.1 ((structEntries sname source.2).getD []))]
        · rw [Option.bind_some, Option.bind_some, returned_isSome_iff, AttrValue.leaves,
            readable_entries, ← List.flatMap_def]
          simp only [List.mem_flatMap, forall_exists_index, and_imp]
          refine ⟨fun h => ⟨sname, fun source hsource => ?_⟩, ?_⟩
          · obtain ⟨aggtype, entries, heq, hne⟩ := structEntries_isSome_iff.mp (hall source hsource)
            refine ⟨aggtype, entries, heq, hne, fun hflat entry hentry => ?_⟩
            refine h hflat (some (source.1 ++ ":" ++ B.dumpsKey entry.1), entry.2) source hsource ?_
            simp only [heq, structEntries, hne, ne_eq, not_false_eq_true, and_self, if_true,
              Option.getD_some]
            exact List.mem_map.mpr ⟨entry, hentry, rfl⟩
          · rintro ⟨sname', h⟩ hflat entry source hsource hentry
            obtain rfl := hname' sname' h
            obtain ⟨aggtype, entries, heq, hne, hread⟩ := h source hsource
            simp only [heq, structEntries, hne, ne_eq, not_false_eq_true, and_self, if_true,
              Option.getD_some] at hentry
            obtain ⟨entry, hmem, rfl⟩ := List.mem_map.mp hentry
            exact hread hflat entry hmem
        · intro source hsource
          rw [eq_some_getD (hall source hsource) []]
          rfl
      · -- one has not, and the aggregation raises
        have hnone := mt (mapM_fromSource_isSome_iff (B := B) (structEntries sname)).mp hall
        rw [Option.not_isSome_iff_eq_none.mp hnone]
        simp only [Option.bind_none, Option.isSome_none, Bool.false_eq_true, false_iff]
        rintro ⟨sname', h⟩
        obtain rfl := hname' sname' h
        refine hall fun source hsource => structEntries_isSome_iff.mpr ?_
        obtain ⟨aggtype, entries, heq, hne, -⟩ := h source hsource
        exact ⟨aggtype, entries, heq, hne⟩

-- ---------------------------------------------------------------------------
-- The values of the sources
-- ---------------------------------------------------------------------------

/-- The values are those that are not the first's JSON text again. -/
theorem map_fst_default_agg : (_default_agg B oattr).map Prod.fst =
    firstBy (fun a b => decide (B.dumps a = B.dumps b)) (oattr.sources.map Prod.snd) := by
  unfold _default_agg firstBy
  rw [List.foldl_map]
  have hstep : ∀ (sources : List (String × AttrValue)) (result : List (AttrValue × List String)),
      (sources.foldl (fun result source =>
        if result.any fun items => B.dumps items.1 = B.dumps source.2 then
          result.map fun items =>
            if B.eq items.1 source.2 then (items.1, items.2 ++ [source.1]) else items
        else result ++ [(source.2, [source.1])]) result).map Prod.fst =
      sources.foldl (fun kept source =>
        keepFirst (fun a b => decide (B.dumps a = B.dumps b)) kept source.2)
        (result.map Prod.fst) := by
    intro sources
    induction sources with
    | nil => exact fun _ => rfl
    | cons source rest ih =>
      intro result
      rw [List.foldl_cons, List.foldl_cons, ih, keepFirst, List.any_map]
      congr 1
      by_cases hany : result.any (fun items => B.dumps items.1 = B.dumps source.2) = true
      · rw [if_pos hany, List.map_map]
        refine Eq.trans (List.map_congr_left fun items _ => ?_) (if_pos hany).symm
        show (if _ then (items.1, _) else items).1 = items.1
        split <;> rfl
      · rw [if_neg hany, List.map_append]
        exact (if_neg hany).symm
  exact hstep oattr.sources []

theorem returnedSources_isSome_iff (values : List (AttrValue × List String)) :
    (returnedSources B flat values).isSome ↔
      (flat = true → ∀ v ∈ values.map Prod.fst, Readable B v.leaves) := by
  rw [List.forall_mem_map]
  cases flat with
  | false => simp [returnedSources]
  | true =>
    have hmany : ((values.mapM fun value => (flatten B value.1).map (·, value.2)).map
        Entry.flatSources).isSome ↔ ∀ value ∈ values, Readable B value.1.leaves := by
      rw [Option.isSome_map, mapM_isSome_iff]
      refine forall₂_congr fun value _ => ?_
      rw [Option.isSome_map, flatten_isSome_iff]
    simp only [returnedSources, if_true, forall_const]
    match values with
    | [] => exact hmany
    | [value] => simp [flatten_isSome_iff]
    | value :: value' :: rest => exact hmany

-- ---------------------------------------------------------------------------
-- Append lists
-- ---------------------------------------------------------------------------

/-- The texts of the sums do not change what can be flattened. -/
theorem readable_toMembers {res : ResItem} (h : res.Copies B)
    (hnodup : (res.item.map Prod.fst).Nodup) :
    Readable B (leavesMembers res.toMembers) ↔ Readable B (leavesMembers res.item) := by
  rw [readable_members, readable_members, ResItem.toMembers, List.forall_mem_map]
  refine forall₂_congr fun member hmember => ?_
  cases hcount : res.counts.lookup member.1 with
  | none => exact Iff.rfl
  | some n =>
    have hattr : member.1 ∈ _list_agg_attrs res.item :=
      h.counts ▸ lookup_isSome_iff_mem.mp (by rw [hcount]; rfl)
    have hlookup := (mem_iff_lookup hnodup).mp hmember
    have hcounter : member.2.isCounter = true := by
      obtain ⟨member', hmember', hname⟩ := List.mem_map.mp hattr
      obtain ⟨hmem', hkind⟩ := List.mem_filter.mp hmember'
      have hlookup' := (mem_iff_lookup hnodup).mp hmem'
      rw [hname, hlookup, Option.some.injEq] at hlookup'
      rw [hlookup']
      exact (decide_eq_true_eq.mp hkind).2
    have hread := h.read member.1 hattr
    rw [memberInt, memberText, hlookup, Option.bind_some] at hread
    -- The text before is read by `int` as well.
    obtain ⟨name, v⟩ := member
    cases v with
    | basic aggtype t text =>
      refine iff_of_true ?_ ?_
      · intro leaf hleaf
        rw [List.mem_singleton.mp hleaf]
        exact reads_toString hcounter n
      · intro leaf hleaf s hs
        rw [List.mem_singleton.mp hleaf] at hs ⊢
        have htext : text = some s := hs
        rw [AttrValue.text, htext, Option.bind_some] at hread
        refine ⟨fun _ => hread, fun hfloat => ?_⟩
        rw [BasicType.flattensToFloat_of_isCounter hcounter] at hfloat
        cases hfloat
    | _ => cases hcounter

theorem elements_eq (oattr : OAttr) : elements oattr = (allItems oattr).filterMap Elem.members := by
  rw [elements, allItems, List.flatMap_def, List.flatMap_def, List.filterMap_flatten, List.map_map]
  rfl

theorem consolidate_list_eq {aggtype : Option AggType} {sname size : String} {items : List Elem}
    (hne : items ≠ []) : consolidate_list B (.list aggtype sname size items) =
      (items.head?.bind Elem.members).bind fun first =>
        if _get_list_key first = "" then some .whole
        else (consolidateItems B (_get_list_key first) items).bind fun res =>
          some (.list (.list aggtype sname (toString res.2) (res.1.map .struct))) := by
  simp only [consolidate_list, get_list_name, listItems, List.isEmpty_iff, hne, if_false, ne_eq,
    not_false_eq_true, and_self, if_true, Option.bind_eq_bind, Option.bind_some, AttrValue.aggtype]

/-- The consolidated list as it is returned. -/
theorem consolidateItems_returned_iff {appkey sname : String} {aggtype : Option AggType}
    {items : List Elem} {elems : List Members} (helems : items.mapM Elem.members = some elems)
    (hnodup : ∀ e ∈ elems, (e.map Prod.fst).Nodup) :
    ((consolidateItems B appkey items).bind fun res => returned B flat
        (.list aggtype sname (toString res.2) (res.1.map .struct))).isSome ↔
      Consolidates B appkey elems ∧
        (flat = true → ∀ e ∈ firstBy (sameKey appkey) elems, Readable B (leavesMembers e)) := by
  obtain ⟨hiff, hrun⟩ := @foldlM_consolidateStep B appkey elems
  rw [consolidateItems, helems, Option.bind_eq_bind, Option.bind_some, ← hiff]
  cases hacc : elems.foldlM (consolidateStep B appkey) ([], 0) with
  | none => simp
  | some acc =>
    have hcons := hrun acc hacc
    have hread : (∀ e ∈ firstBy (sameKey appkey) elems, Readable B (leavesMembers e)) ↔
        ∀ elem ∈ (acc.1.map ResItem.toMembers).map Elem.struct, Readable B elem.leaves := by
      rw [← hcons.items, List.forall_mem_map, List.map_map, List.forall_mem_map]
      refine forall₂_congr fun res hres => ?_
      have hmem : res.item ∈ firstBy (sameKey appkey) elems :=
        hcons.items ▸ List.mem_map_of_mem hres
      exact (readable_toMembers (hcons.copies res hres)
        (hnodup _ (mem_of_mem_firstBy hmem))).symm
    rw [Option.bind_eq_bind, Option.bind_some, Option.bind_some, returned_isSome_iff,
      AttrValue.leaves, readable_elems, hread]
    simp

theorem consolidate_list_returned_iff {aggtype : Option AggType} {sname size : String}
    {items : List Elem} (hne : items ≠ [])
    (hnodup : ∀ e ∈ items.filterMap Elem.members, (e.map Prod.fst).Nodup) :
    ((consolidate_list B (.list aggtype sname size items)).bind (returnedList B flat)).isSome ↔
      ItemsConsolidate B flat items := by
  rw [consolidate_list_eq hne, ItemsConsolidate]
  cases hfirst : items.head?.bind Elem.members with
  | none => simp
  | some first =>
    simp only [Option.bind_some, Option.some.injEq, exists_eq_left']
    by_cases hkey : _get_list_key first = ""
    · rw [if_pos hkey]
      cases flat <;> simp [hkey, returnedList]
    · rw [if_neg hkey, Option.bind_assoc]
      simp only [Option.bind_some, returnedList, hkey, false_implies, true_and, ne_eq,
        not_false_eq_true, forall_const]
      cases helems : items.mapM Elem.members with
      | none => simp [consolidateItems, helems]
      | some elems =>
        rw [consolidateItems_returned_iff helems]
        · simp
        · have hall : ∀ elem ∈ items, elem.members.isSome :=
            mapM_isSome_iff.mp (by rw [helems]; rfl)
          rw [mapM_members hall] at helems
          exact Option.some.inj helems ▸ hnodup

/-- An append list gets through when it is joined and its elements are consolidated; when it is
only joined, it has been assigned. -/
theorem aggregateAppend_cases (hnodup : ∀ e ∈ elements oattr, (e.map Prod.fst).Nodup) :
    ((aggregateAppend B flat oattr).isDone = true ↔
      SameLists oattr ∧ ItemsConsolidate B flat (allItems oattr)) ∧
    ((∃ entry, aggregateAppend B flat oattr = .raised (some entry)) ↔
      SameLists oattr ∧ ¬ ItemsConsolidate B flat (allItems oattr)) := by
  unfold aggregateAppend
  by_cases h : SameLists oattr
  · obtain ⟨sname, happend⟩ := _append_agg_eq h
    obtain ⟨-, -, -, -, -, hne⟩ := h.lists
    rw [elements_eq] at hnodup
    have hiff : ((consolidate_list B (.list oattr.first.2.aggtype sname
        (toString (allItems oattr).length) (allItems oattr))).bind (returnedList B flat)).isSome ↔
          ItemsConsolidate B flat (allItems oattr) := consolidate_list_returned_iff hne hnodup
    simp only [happend, ← hiff, h, true_and]
    cases (consolidate_list B (.list oattr.first.2.aggtype sname
      (toString (allItems oattr).length) (allItems oattr))).bind (returnedList B flat) with
    | none => simp [Outcome.isDone]
    | some entry => simp [Outcome.isDone]
  · rw [_append_agg_eq_none h]
    simp [h, Outcome.isDone]

-- ---------------------------------------------------------------------------
-- One attribute
-- ---------------------------------------------------------------------------

/-- An append list is none of the others. -/
theorem not_others_of_is_append (h : _is_append oattr = true) : _is_elem_sum oattr = false ∧
    _is_struct_sum oattr = false ∧ _is_list_union oattr = false ∧ _is_map_union oattr = false := by
  obtain ⟨htype, hagg⟩ : oattr.first.2.type = .list ∧ oattr.first.2.aggtype = some .append := by
    simpa [_is_append] using h
  simp [_is_elem_sum, _is_struct_sum, _is_list_union, _is_map_union, htype, hagg]

/-- The aggregation of an attribute gets through exactly when the sources have what its routine
needs. -/
theorem aggregateAttr_done_iff (hnodup : ∀ e ∈ elements oattr, (e.map Prod.fst).Nodup) :
    (aggregateAttr B flat oattr).isDone = true ↔ Aggregates B flat oattr := by
  unfold aggregateAttr Aggregates
  by_cases h₁ : _is_elem_sum oattr = true
  · rw [if_pos h₁, if_pos h₁, Outcome.isDone_ofOption, elem_sum_isSome_iff h₁]
  rw [if_neg h₁, if_neg h₁]
  by_cases h₂ : _is_struct_sum oattr = true
  · rw [if_pos h₂, if_pos h₂, Outcome.isDone_ofOption, struct_sum_isSome_iff]
  rw [if_neg h₂, if_neg h₂]
  by_cases h₃ : _is_list_union oattr = true
  · rw [if_pos h₃, if_pos h₃, Outcome.isDone_ofOption, list_union_isSome_iff]
  rw [if_neg h₃, if_neg h₃]
  by_cases h₄ : _is_map_union oattr = true
  · rw [if_pos h₄, if_pos h₄, Outcome.isDone_ofOption, map_union_isSome_iff h₄]
  rw [if_neg h₄, if_neg h₄]
  by_cases h₅ : _is_append oattr = true
  · rw [if_pos h₅, if_pos h₅, (aggregateAppend_cases hnodup).1]
  · rw [if_neg h₅, if_neg h₅, Outcome.isDone_ofOption, returnedSources_isSome_iff,
      map_fst_default_agg]

/-- An attribute that does not get through has been assigned only when it is an append list that
was joined. -/
theorem aggregateAttr_assigned_iff (hnodup : ∀ e ∈ elements oattr, (e.map Prod.fst).Nodup) :
    (∃ entry, aggregateAttr B flat oattr = .raised (some entry)) ↔
      Joins oattr ∧ ¬ Aggregates B flat oattr := by
  have hoption : ∀ entry : Option Entry, ¬ ∃ e, Outcome.ofOption entry = .raised (some e) := by
    rintro (_ | _) ⟨e, he⟩ <;> cases he
  by_cases h₅ : _is_append oattr = true
  · obtain ⟨h₁, h₂, h₃, h₄⟩ := not_others_of_is_append h₅
    simp only [aggregateAttr, Aggregates, Joins, h₁, h₂, h₃, h₄, h₅, if_true, Bool.false_eq_true,
      if_false, true_and, (aggregateAppend_cases hnodup).2]
    exact ⟨fun h => ⟨h.1, fun h' => h.2 h'.2⟩, fun h => ⟨h.1, fun h' => h.2 ⟨h.1, h'⟩⟩⟩
  · have hnot : ¬ ∃ entry, aggregateAttr B flat oattr = .raised (some entry) := by
      rw [aggregateAttr, if_neg h₅]
      split_ifs <;> exact hoption _
    exact iff_of_false hnot fun h => h₅ h.1.1

-- ---------------------------------------------------------------------------
-- All attributes
-- ---------------------------------------------------------------------------

/-- Every struct type and every attribute has an entry. -/
def Complete (state : UveState) (result : List (String × List (String × Entry))) : Prop :=
  ∀ typ ∈ state.types, ∃ r ∈ result, r.1 = typ.1 ∧ ∀ attr ∈ typ.2, attr.1 ∈ r.2.map Prod.fst

/-- The last attribute of all. -/
def IsLast (types : List (String × List (String × OAttr))) (typ : String × List (String × OAttr))
    (attr : String × OAttr) : Prop :=
  types.getLast? = some typ ∧ typ.2.getLast? = some attr

theorem aggregateAttrs_all_iff (attrs : List (String × OAttr)) :
    (aggregateAttrs B flat attrs).2 = true ↔
      ∀ attr ∈ attrs, (aggregateAttr B flat attr.2).isDone = true := by
  induction attrs with
  | nil => simp [aggregateAttrs]
  | cons attr rest ih =>
    obtain ⟨objattr, oattr⟩ := attr
    rw [aggregateAttrs]
    cases hattr : aggregateAttr B flat oattr with
    | done entry => simp [hattr, Outcome.isDone, ih]
    | raised assigned => simp [hattr, Outcome.isDone]

/-- The attributes of a struct type all have an entry when all get through, but for the last one,
which may have been assigned before it failed. -/
theorem aggregateAttrs_complete_iff {attrs : List (String × OAttr)}
    (hnodup : (attrs.map Prod.fst).Nodup) :
    (∀ attr ∈ attrs, attr.1 ∈ (aggregateAttrs B flat attrs).1.map Prod.fst) ↔
      ∀ attr ∈ attrs, (aggregateAttr B flat attr.2).isDone = true ∨ attrs.getLast? = some attr ∧
        ∃ entry, aggregateAttr B flat attr.2 = .raised (some entry) := by
  induction attrs with
  | nil => simp
  | cons attr rest ih =>
    obtain ⟨objattr, oattr⟩ := attr
    rw [List.map_cons, List.nodup_cons] at hnodup
    rw [aggregateAttrs]
    have hne : ∀ attr ∈ rest, attr.1 ≠ objattr := fun attr hattr heq =>
      hnodup.1 (List.mem_map.mpr ⟨attr, hattr, heq⟩)
    cases hattr : aggregateAttr B flat oattr with
    | done entry =>
      rw [List.forall_mem_cons, List.forall_mem_cons, hattr]
      refine and_congr (iff_of_true List.mem_cons_self (.inl rfl)) ?_
      refine Iff.trans ?_ ((ih hnodup.2).trans ?_)
      · refine forall₂_congr fun attr hmem => ?_
        show attr.1 ∈ objattr :: _ ↔ _
        rw [List.mem_cons]
        exact or_iff_right (hne attr hmem)
      · refine forall₂_congr fun attr hmem => ?_
        obtain ⟨b, rest', rfl⟩ := List.exists_cons_of_ne_nil (List.ne_nil_of_mem hmem)
        rw [List.getLast?_cons_cons]
    | raised assigned =>
      cases rest with
      | nil =>
        rw [List.forall_mem_singleton, List.forall_mem_singleton, hattr]
        cases assigned with
        | none => simp [Outcome.isDone]
        | some entry => simp [Outcome.isDone]
      | cons b rest =>
        -- The attribute after it has no entry.
        refine iff_of_false (fun h => ?_) fun h => ?_
        · have hb := h b (by simp)
          cases assigned with
          | none => simp at hb
          | some entry =>
            have hname : b.1 ∈ [objattr] := hb
            exact hne b List.mem_cons_self (List.mem_singleton.mp hname)
        · rcases h (objattr, oattr) List.mem_cons_self with hdone | ⟨hlast, -⟩
          · rw [hattr] at hdone
            cases hdone
          · rw [List.getLast?_cons_cons] at hlast
            exact hne _ (List.mem_of_getLast? hlast) rfl

theorem aggregateTypes_complete_iff {types : List (String × List (String × OAttr))}
    (hnodup : (types.map Prod.fst).Nodup) (hattrs : ∀ typ ∈ types, (typ.2.map Prod.fst).Nodup) :
    (∀ typ ∈ types, ∃ r ∈ aggregateTypes B flat types, r.1 = typ.1 ∧
        ∀ attr ∈ typ.2, attr.1 ∈ r.2.map Prod.fst) ↔
      ∀ typ ∈ types, ∀ attr ∈ typ.2, (aggregateAttr B flat attr.2).isDone = true ∨
        IsLast types typ attr ∧ ∃ entry, aggregateAttr B flat attr.2 = .raised (some entry) := by
  induction types with
  | nil => simp
  | cons typ rest ih =>
    obtain ⟨name, attrs⟩ := typ
    rw [List.map_cons, List.nodup_cons] at hnodup
    rw [List.forall_mem_cons] at hattrs
    have hne : ∀ typ ∈ rest, typ.1 ≠ name := fun typ htyp heq =>
      hnodup.1 (List.mem_map.mpr ⟨typ, htyp, heq⟩)
    rw [aggregateTypes]
    have hattrs_iff := @aggregateAttrs_complete_iff B flat attrs hattrs.1
    by_cases hall : (aggregateAttrs B flat attrs).2 = true
    · have hdone := (aggregateAttrs_all_iff attrs).mp hall
      rw [hall, List.forall_mem_cons, List.forall_mem_cons]
      refine and_congr (iff_of_true ?_ fun attr hattr => .inl (hdone attr hattr)) ?_
      · exact ⟨_, List.mem_cons_self, rfl, hattrs_iff.mpr fun attr hattr => .inl (hdone attr hattr)⟩
      refine Iff.trans ?_ ((ih hnodup.2 hattrs.2).trans ?_)
      · refine forall₂_congr fun typ htyp => ?_
        rw [if_pos rfl, List.exists_mem_cons_iff]
        exact or_iff_right fun h => hne typ htyp h.1.symm
      · refine forall₂_congr fun typ htyp => ?_
        obtain ⟨b, rest', rfl⟩ := List.exists_cons_of_ne_nil (List.ne_nil_of_mem htyp)
        simp only [IsLast, List.getLast?_cons_cons]
    · rw [Bool.not_eq_true] at hall
      rw [hall]
      cases rest with
      | nil =>
        simp only [Bool.false_eq_true, if_false, List.mem_singleton, forall_eq, exists_eq_left,
          true_and, IsLast, List.getLast?_singleton]
        exact hattrs_iff
      | cons b rest =>
        refine iff_of_false (fun h => ?_) fun h => ?_
        · obtain ⟨r, hr, hname, -⟩ := h b (by simp)
          obtain rfl : r = _ := List.mem_singleton.mp hr
          exact hne b List.mem_cons_self hname.symm
        · -- An attribute fails, and its type is not the last.
          refine Bool.false_ne_true (hall.symm.trans ((aggregateAttrs_all_iff attrs).mpr ?_))
          intro attr hattr
          rcases h (name, attrs) List.mem_cons_self attr hattr with hdone | ⟨⟨hlast, -⟩, -⟩
          · exact hdone
          · rw [List.getLast?_cons_cons] at hlast
            exact absurd rfl (hne _ (List.mem_of_getLast? hlast))

/-- The result has an attribute's entry when all before it get through. -/
theorem lookup_aggregateAttrs_iff {attrs : List (String × OAttr)} {name : String} {entry : Entry} :
    (aggregateAttrs B flat attrs).1.lookup name = some entry ↔
      (∀ attr ∈ attrs.takeWhile (·.1 ≠ name), (aggregateAttr B flat attr.2).isDone = true) ∧
        ∃ oattr, attrs.lookup name = some oattr ∧ (aggregateAttr B flat oattr = .done entry ∨
          aggregateAttr B flat oattr = .raised (some entry)) := by
  induction attrs with
  | nil => simp [aggregateAttrs]
  | cons attr rest ih =>
    obtain ⟨objattr, oattr⟩ := attr
    rw [aggregateAttrs, List.lookup_cons, List.takeWhile_cons]
    by_cases hname : name = objattr
    · subst hname
      rw [beq_self_eq_true]
      cases hattr : aggregateAttr B flat oattr with
      | done entry' => simp [hattr]
      | raised assigned => cases assigned <;> simp [hattr]
    · rw [beq_eq_false_iff_ne.mpr hname, decide_eq_true (Ne.symm hname), if_pos rfl,
        List.forall_mem_cons]
      cases hattr : aggregateAttr B flat oattr with
      | done entry' =>
        simp only [List.lookup_cons, beq_eq_false_iff_ne.mpr hname, ih, Outcome.isDone, true_and]
      | raised assigned =>
        cases assigned <;> simp [Outcome.isDone, List.lookup_cons, beq_eq_false_iff_ne.mpr hname]

/-- The result has a struct type when all attributes of those before it get through. -/
theorem lookup_aggregateTypes_iff {types : List (String × List (String × OAttr))} {name : String}
    {entries : List (String × Entry)} :
    (aggregateTypes B flat types).lookup name = some entries ↔
      (∀ typ ∈ types.takeWhile (·.1 ≠ name), ∀ attr ∈ typ.2,
        (aggregateAttr B flat attr.2).isDone = true) ∧
        ∃ attrs, types.lookup name = some attrs ∧ entries = (aggregateAttrs B flat attrs).1 := by
  induction types with
  | nil => simp [aggregateTypes]
  | cons typ rest ih =>
    obtain ⟨typ, attrs⟩ := typ
    rw [aggregateTypes, List.lookup_cons, List.lookup_cons, List.takeWhile_cons]
    by_cases hname : name = typ
    · subst hname
      rw [beq_self_eq_true, decide_eq_false (not_not_intro rfl)]
      constructor
      · intro h
        exact ⟨by simp, attrs, rfl, (Option.some.inj h).symm⟩
      · rintro ⟨-, attrs', hattrs, rfl⟩
        rw [Option.some.inj hattrs]
    · rw [beq_eq_false_iff_ne.mpr hname, decide_eq_true (Ne.symm hname), if_pos rfl,
        List.forall_mem_cons]
      cases hall : (aggregateAttrs B flat attrs).2 with
      | true =>
        rw [if_pos rfl]
        refine ih.trans (and_congr_left' ?_)
        exact (and_iff_right ((aggregateAttrs_all_iff attrs).mp hall)).symm
      | false =>
        rw [if_neg Bool.false_ne_true]
        refine iff_of_false (fun h => (nomatch h)) fun h => ?_
        exact Bool.false_ne_true (hall.symm.trans ((aggregateAttrs_all_iff attrs).mpr h.1.1))

/-- The result has an entry for every struct type and every attribute exactly when the sources of
every attribute have what its routine needs; only the very last attribute, if it is an append
list, need only be joined. -/
theorem aggregate_complete_iff (B : Builtins) (state : UveState) (flat : Bool) :
    Complete state (aggregate B state flat) ↔
      ∀ typ ∈ state.types, ∀ attr ∈ typ.2, Aggregates B flat attr.2 ∨
        IsLast state.types typ attr ∧ Joins attr.2 := by
  refine (aggregateTypes_complete_iff state.nodup state.nodupAttrs).trans ?_
  refine forall₂_congr fun typ htyp => forall₂_congr fun attr hattr => ?_
  have hnodup := state.nodupMembers typ htyp attr hattr
  rw [aggregateAttr_done_iff hnodup, aggregateAttr_assigned_iff hnodup]
  tauto

/-- A list of texts with the annotation `append`, and an attribute after it. -/
def sampleTypes : UveState where
  types := [("UveVRouter",
    [("names", ⟨("a", .list (some .append) "element" "1" [.text (some "n")]), []⟩),
      ("total", ⟨("a", .basic none .i32 (some "1")), []⟩)])]
  nodup := by decide
  nodupAttrs := by decide
  nodupMembers := by
    intro typ htyp attr hattr e he
    rw [List.mem_singleton.mp htyp] at hattr
    simp only [List.mem_cons, List.not_mem_nil, or_false] at hattr
    rcases hattr with rfl | rfl <;> exact nomatch (show e ∈ ([] : List Members) from he)

/-- The attribute after the list is lost. -/
theorem not_complete : ¬ ∀ state flat, Complete state (aggregate default state flat) := by
  intro h
  obtain ⟨r, hr, -, hattrs⟩ := h sampleTypes false _ List.mem_cons_self
  have hresult : aggregate default sampleTypes false =
      [("UveVRouter",
        [("names", .value (.list (some .append) "element" "1" [.text (some "n")]))])] := rfl
  rw [hresult, List.mem_singleton] at hr
  have htotal := hattrs ("total", ⟨("a", .basic none .i32 (some "1")), []⟩) (by simp)
  rw [hr] at htotal
  exact absurd htotal (by decide)

end TfAnalytics.OpServer
