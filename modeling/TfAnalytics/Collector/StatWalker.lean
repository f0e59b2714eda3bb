import Mathlib.Data.Char
import Mathlib.Data.List.Lex
import TfAnalytics.Lib.Nested
import TfAnalytics.Lib.OrderedMap
import TfAnalytics.Collector.StatTable

/-!
# Collector — nested statistics

`StatWalker` (stat_walker.cc) is told of the nodes of a statistics structure by `Push` and
`Pop`; on `Pop` it hands the attributes of the node and the tags of its ancestors to
`StatTableInsert`.

* `stat_walk`: every node is handed over once, after its descendants, with what its path has.
-/

namespace TfAnalytics.Collector

open TfAnalytics.Lib

variable {δ : Type}

-- ---------------------------------------------------------------------------
-- stat_walker.h
-- ---------------------------------------------------------------------------

def Var.isInvalid : Var δ → Bool
  | .INVALID => true
  | _ => false

@[simp] theorem Var.isInvalid_INVALID : (Var.INVALID : Var δ).isInvalid = true := rfl

/-- `TagVal`. -/
structure TagVal (δ : Type) where
  tagPrefix : Text × Var δ
  val : Var δ

/-- `DbHandler::AttribMap`, by name. -/
abbrev Attribs (δ : Type) : Type := OrderedMap Text (Var δ)

/-- `DbHandler::TagMap`, of which `FillTag` makes one entry for each name. -/
abbrev AttribsTag (δ : Type) : Type := OrderedMap Text (Var δ × Attribs δ)

/-- What `Push` is given, and with full names a `StatNode`. -/
structure StatNode (δ : Type) where
  name : Text
  tags : OrderedMap Text (TagVal δ)
  attribs : Attribs δ

structure StatWalker (δ : Type) where
  timestamp_ : Nat
  stat_name_ : Text
  top_tags_ : OrderedMap Text (TagVal δ)
  nodes_ : List (StatNode δ)

def StatWalker.new (timestamp : Nat) (statName : Text) (tags : OrderedMap Text (TagVal δ)) :
    StatWalker δ :=
  ⟨timestamp, statName, tags, []⟩

/-- The arguments of `StatTableInsertFn`. -/
structure StatInsert (δ : Type) where
  timestamp : Nat
  statName : Text
  statAttr : Text
  attribs_tag : AttribsTag δ
  attribs : Attribs δ

-- ---------------------------------------------------------------------------
-- stat_walker.cc
-- ---------------------------------------------------------------------------

/-- One step of the loop that builds `prename`. -/
def appendName (prename name : Text) : Text :=
  (if prename ≠ [] then prename ++ ['.'] else prename) ++ name

/-- The maps with the names behind `prename`; `none` is the assertion. -/
def qualifyAll {β : Type} (prename : Text) (m : OrderedMap Text β) : Option (OrderedMap Text β) :=
  m.entries.foldlM (fun sn ti =>
    if '.' ∈ ti.1 then none else some (sn.insert (prename ++ '.' :: ti.1) ti.2)) OrderedMap.empty

def StatWalker.Push (sw : StatWalker δ) (node : StatNode δ) : Option (StatWalker δ) := do
  let prename := sw.nodes_.foldl (fun prename ancestor => appendName prename ancestor.name) []
  let prename := appendName prename node.name
  let tags ← qualifyAll prename node.tags
  let attribs ← qualifyAll prename node.attribs
  return { sw with nodes_ := sw.nodes_ ++ [⟨node.name, tags, attribs⟩] }

/-- Name and value of the first level, then of the second. -/
def tagLevels (ti : Text × TagVal δ) : (Text × Var δ) × (Text × Var δ) :=
  if ti.2.tagPrefix.2.isInvalid then ((ti.1, ti.2.val), ([], .INVALID))
  else (ti.2.tagPrefix, (ti.1, ti.2.val))

def FillTag (attribs_tag : AttribsTag δ) (ti : Text × TagVal δ) : AttribsTag δ :=
  let ((pname, pval), (sname, sval)) := tagLevels ti
  match attribs_tag.find? pname with
  | none =>
    let amap : Attribs δ := if sval.isInvalid then OrderedMap.empty else OrderedMap.empty.insert sname sval
    attribs_tag.insert pname (pval, amap)
  | some (first, amap) =>
    if sval.isInvalid then attribs_tag
    else if (amap.find? sname).isNone then
      attribs_tag.assign pname (first, amap.insert sname sval)
    else attribs_tag

/-- The final tags, inserted as attributes. -/
def tagsAsAttribs (attribs : Attribs δ) (attribs_tag : AttribsTag δ) : Attribs δ :=
  attribs_tag.entries.foldl (fun attribs fi =>
    fi.2.2.entries.foldl (fun attribs e => attribs.insert e.1 e.2) (attribs.insert fi.1 fi.2.1))
    attribs

def StatWalker.Pop (sw : StatWalker δ) : Option (StatWalker δ × StatInsert δ) :=
  match sw.nodes_.getLast? with
  | none => none
  | some back =>
    let attribs_tag := sw.top_tags_.entries.foldl FillTag OrderedMap.empty
    let (prename, attribs_tag) := sw.nodes_.foldl (fun s ancestor =>
      (appendName s.1 ancestor.name, ancestor.tags.entries.foldl FillTag s.2)) ([], attribs_tag)
    some ({ sw with nodes_ := sw.nodes_.dropLast },
      ⟨sw.timestamp_, sw.stat_name_, prename, attribs_tag, tagsAsAttribs back.attribs attribs_tag⟩)

-- ---------------------------------------------------------------------------
-- What a path gives
-- ---------------------------------------------------------------------------

/-- The names joined by dots; an empty name at the front leaves no dot. -/
def dottedPath (names : List Text) : Text := join ['.'] (names.dropWhile (· = []))

def qualified {β : Type} (prename : Text) (l : List (Text × β)) : List (Text × β) :=
  l.map fun e => (prename ++ '.' :: e.1, e.2)

theorem keysLt_qualified {β : Type} (prename : Text) {l : List (Text × β)} (h : KeysLt l) :
    KeysLt (qualified prename l) := by
  refine List.pairwise_map.mpr (h.imp fun {a b} hab => ?_)
  have : '.' :: a.1 < '.' :: b.1 := List.cons_lt_cons_iff.mpr (.inr ⟨rfl, hab⟩)
  exact List.append_left_lt this

/-- The node under full names, below the names `pre`. -/
def StatNode.full (pre : List Text) (node : StatNode δ) : StatNode δ :=
  let prename := dottedPath (pre ++ [node.name])
  ⟨node.name, ⟨qualified prename node.tags.entries, keysLt_qualified _ node.tags.sorted⟩,
    ⟨qualified prename node.attribs.entries, keysLt_qualified _ node.attribs.sorted⟩⟩

/-- The nodes of a path under full names. -/
def fullNodes (pre : List Text) : List (StatNode δ) → List (StatNode δ)
  | [] => []
  | node :: path => node.full pre :: fullNodes (pre ++ [node.name]) path

/-- The tags of the top level and of the nodes of the path, in order. -/
def pathTags (top_tags : OrderedMap Text (TagVal δ)) (path : List (StatNode δ)) :
    List (Text × TagVal δ) :=
  top_tags.entries ++ (fullNodes [] path).flatMap fun node => node.tags.entries

/-- The first level of a tag: its prefix if it has one. -/
def firstLevel (ti : Text × TagVal δ) : Text × Var δ :=
  if ti.2.tagPrefix.2.isInvalid then (ti.1, ti.2.val) else ti.2.tagPrefix

/-- The second level below `p` of a tag: with the prefix `p` and a value it is the tag itself. -/
def secondLevel (p : Text) (ti : Text × TagVal δ) : Option (Text × Var δ) :=
  if ti.2.tagPrefix.2.isInvalid = false ∧ ti.2.tagPrefix.1 = p ∧ ti.2.val.isInvalid = false then
    some (ti.1, ti.2.val)
  else none

def ownAttribs (path : List (StatNode δ)) : List (Text × Var δ) :=
  match (fullNodes [] path).getLast? with
  | none => []
  | some node => node.attribs.entries

/-- The call for the last node of the path. Of tags with one name the first stays; so does an
attribute of the node before a tag of its name. -/
structure IsInsert (sw : StatWalker δ) (path : List (StatNode δ)) (args : StatInsert δ) :
    Prop where
  timestamp : args.timestamp = sw.timestamp_
  statName : args.statName = sw.stat_name_
  statAttr : args.statAttr = dottedPath (path.map (·.name))
  first : ∀ p, (args.attribs_tag.find? p).map Prod.fst =
    findList p ((pathTags sw.top_tags_ path).map firstLevel)
  second : ∀ p s, ((args.attribs_tag.find? p).bind fun e => e.2.find? s) =
    findList s ((pathTags sw.top_tags_ path).filterMap (secondLevel p))
  own : ∀ name v, findList name (ownAttribs path) = some v → args.attribs.find? name = some v
  tag : ∀ name, findList name (ownAttribs path) = none →
    ((args.attribs.find? name).isSome ↔
      (findList name ((pathTags sw.top_tags_ path).map firstLevel)).isSome ∨
        ∃ p, (findList name ((pathTags sw.top_tags_ path).filterMap (secondLevel p))).isSome) ∧
    ∀ v, args.attribs.find? name = some v →
      findList name ((pathTags sw.top_tags_ path).map firstLevel) = some v ∨
        ∃ p, findList name ((pathTags sw.top_tags_ path).filterMap (secondLevel p)) = some v

/-- The names of a node's tags and attributes are local ones. -/
structure StatNode.IsLocal (node : StatNode δ) : Prop where
  tags : ∀ e ∈ node.tags.entries, '.' ∉ e.1
  attribs : ∀ e ∈ node.attribs.entries, '.' ∉ e.1

-- ---------------------------------------------------------------------------
-- Names
-- ---------------------------------------------------------------------------

theorem foldl_appendName {prename : Text} (h : prename ≠ []) (names : List Text) :
    names.foldl appendName prename = join ['.'] (prename :: names) := by
  induction names generalizing prename with
  | nil => simp [join, List.intercalate]
  | cons name names ih =>
    have hne : appendName prename name ≠ [] := by simp [appendName, h]
    rw [List.foldl_cons, ih hne, appendName, if_pos h]
    cases names <;> simp [join, List.intercalate]

theorem foldl_appendName_nil (names : List Text) :
    names.foldl appendName [] = dottedPath names := by
  induction names with
  | nil => rfl
  | cons name names ih =>
    rw [List.foldl_cons, show appendName [] name = name from rfl, dottedPath]
    by_cases h : name = []
    · rw [h, ih, dottedPath, List.dropWhile_cons_of_pos (by simp)]
    · rw [foldl_appendName h, List.dropWhile_cons_of_neg (by simpa using h)]

theorem qualifyAll_eq {β : Type} (prename : Text) {m : OrderedMap Text β}
    (h : ∀ e ∈ m.entries, '.' ∉ e.1) :
    qualifyAll prename m =
      some ⟨qualified prename m.entries, keysLt_qualified prename m.sorted⟩ := by
  have hrun : ∀ (l : List (Text × β)), (∀ e ∈ l, '.' ∉ e.1) → ∀ sn : OrderedMap Text β,
      l.foldlM (fun sn ti =>
        if '.' ∈ ti.1 then none else some (sn.insert (prename ++ '.' :: ti.1) ti.2)) sn =
      some ((qualified prename l).foldl (fun sn e => sn.insert e.1 e.2) sn) := by
    intro l hl
    induction l with
    | nil => exact fun sn => rfl
    | cons e l ih =>
      intro sn
      obtain ⟨he, hl⟩ := List.forall_mem_cons.mp hl
      rw [List.foldlM_cons, if_neg he]
      exact ih hl _
  rw [qualifyAll, hrun m.entries h]
  refine congrArg some (OrderedMap.ext_find fun k => ?_)
  rw [OrderedMap.find?_foldl_insert, OrderedMap.find?_empty, Option.none_or]
  rfl

theorem qualifyAll_isSome {β : Type} {prename : Text} {m : OrderedMap Text β}
    (h : (qualifyAll prename m).isSome) : ∀ e ∈ m.entries, '.' ∉ e.1 := by
  intro e he hdot
  rw [qualifyAll, foldlM_eq_none he fun sn => if_pos hdot] at h
  nomatch h

theorem fullNodes_append (pre : List Text) (path : List (StatNode δ)) (node : StatNode δ) :
    fullNodes pre (path ++ [node]) =
      fullNodes pre path ++ [node.full (pre ++ path.map (·.name))] := by
  induction path generalizing pre with
  | nil => simp [fullNodes]
  | cons first path ih => simp [fullNodes, ih]

theorem names_fullNodes (pre : List Text) (path : List (StatNode δ)) :
    (fullNodes pre path).map (·.name) = path.map (·.name) := by
  induction path generalizing pre with
  | nil => rfl
  | cons first path ih => rw [fullNodes, List.map_cons, List.map_cons, ih, StatNode.full]

-- ---------------------------------------------------------------------------
-- FillTag
-- ---------------------------------------------------------------------------

/-- The value of a first-level tag. -/
def firstOf (m : AttribsTag δ) (p : Text) : Option (Var δ) := (m.find? p).map Prod.fst

/-- The value of a second-level tag. -/
def secondOf (m : AttribsTag δ) (p s : Text) : Option (Var δ) :=
  (m.find? p).bind fun e => e.2.find? s

theorem tagLevels_eq (ti : Text × TagVal δ) :
    (tagLevels ti).1 = firstLevel ti ∧ ∀ p, secondLevel p ti =
      if (tagLevels ti).2.2.isInvalid = false ∧ (firstLevel ti).1 = p then
        some (tagLevels ti).2
      else none := by
  unfold tagLevels firstLevel secondLevel
  by_cases h : ti.2.tagPrefix.2.isInvalid = true
  · simp [h]
  · simp only [if_neg h, true_and]
    intro p
    simp [h, and_comm]

theorem FillTag_spec (m : AttribsTag δ) (ti : Text × TagVal δ) (p : Text) :
    firstOf (FillTag m ti) p = (firstOf m p).or (findList p [firstLevel ti]) ∧
      ∀ s, secondOf (FillTag m ti) p s =
        (secondOf m p s).or (findList s (secondLevel p ti).toList) := by
  obtain ⟨hfirst, hsecond⟩ := tagLevels_eq ti
  rw [hsecond p, ← hfirst]
  unfold FillTag firstOf secondOf
  obtain ⟨⟨pname, pval⟩, sname, sval⟩ := tagLevels ti
  simp only [findList]
  cases hfind : m.find? pname with
  | none =>
    by_cases hp : p = pname
    · subst hp
      by_cases hs : sval.isInvalid = true
      · simp [OrderedMap.find?_insert, hfind, hs, findList]
      · simp [OrderedMap.find?_insert, hfind, hs, findList]
    · simp [OrderedMap.find?_insert, hp, Ne.symm hp, findList]
  | some e =>
    obtain ⟨first, amap⟩ := e
    by_cases hp : p = pname
    · subst hp
      by_cases hs : sval.isInvalid = true
      · simp [hfind, hs, findList]
      · cases hamap : amap.find? sname with
        | none =>
          refine ⟨by simp [hfind, hs, hamap, OrderedMap.find?_assign], fun s => ?_⟩
          by_cases h : s = sname
          · simp [hfind, hs, hamap, h, OrderedMap.find?_assign, OrderedMap.find?_insert, findList]
          · simp [hfind, hs, hamap, h, OrderedMap.find?_assign, OrderedMap.find?_insert, findList]
        | some old =>
          refine ⟨by simp [hfind, hs, hamap], fun s => ?_⟩
          by_cases h : s = sname
          · simp [hfind, hs, hamap, h, findList]
          · simp [hfind, hs, hamap, h, findList]
    · have hother : ((if sval.isInvalid = true then m
          else if (amap.find? sname).isNone = true then
            m.assign pname (first, amap.insert sname sval)
          else m).find? p) = m.find? p := by
        split
        · rfl
        · split
          · rw [OrderedMap.find?_assign, if_neg hp]
          · rfl
      simp only [hother]
      simp [hp, Ne.symm hp, findList]

theorem foldl_FillTag (tags : List (Text × TagVal δ)) (m : AttribsTag δ) (p : Text) :
    firstOf (tags.foldl FillTag m) p = (firstOf m p).or (findList p (tags.map firstLevel)) ∧
      ∀ s, secondOf (tags.foldl FillTag m) p s =
        (secondOf m p s).or (findList s (tags.filterMap (secondLevel p))) := by
  induction tags generalizing m with
  | nil => simp [findList]
  | cons ti tags ih =>
    obtain ⟨hfirst, hsecond⟩ := FillTag_spec m ti p
    have happend : (ti :: tags).filterMap (secondLevel p) =
        (secondLevel p ti).toList ++ tags.filterMap (secondLevel p) := by
      cases h : secondLevel p ti <;> simp [h]
    refine ⟨?_, fun s => ?_⟩
    · rw [List.foldl_cons, (ih _).1, hfirst, Option.or_assoc, ← findList_append]
      rfl
    · rw [List.foldl_cons, (ih _).2, hsecond, Option.or_assoc, ← findList_append, happend]

/-- The tags as attributes, in the order of their insertion. -/
def tagAttribs (attribs_tag : AttribsTag δ) : List (Text × Var δ) :=
  attribs_tag.entries.flatMap fun fi => (fi.1, fi.2.1) :: fi.2.2.entries

theorem find?_tagsAsAttribs (attribs : Attribs δ) (attribs_tag : AttribsTag δ) (name : Text) :
    (tagsAsAttribs attribs attribs_tag).find? name =
      (attribs.find? name).or (findList name (tagAttribs attribs_tag)) := by
  unfold tagsAsAttribs tagAttribs
  generalize attribs_tag.entries = entries
  induction entries generalizing attribs with
  | nil => simp [findList]
  | cons fi entries ih =>
    rw [List.foldl_cons, ih, List.flatMap_cons, findList_append, ← Option.or_assoc]
    refine congrArg (Option.or · _) ?_
    exact OrderedMap.find?_foldl_insert ((fi.1, fi.2.1) :: fi.2.2.entries) attribs name

/-- Every one of them is a tag of the first or the second level. -/
theorem mem_tagAttribs {attribs_tag : AttribsTag δ} {name : Text} {v : Var δ} :
    (name, v) ∈ tagAttribs attribs_tag ↔
      firstOf attribs_tag name = some v ∨ ∃ p, secondOf attribs_tag p name = some v := by
  simp only [tagAttribs, List.mem_flatMap, List.mem_cons]
  constructor
  · rintro ⟨⟨p, first, amap⟩, hmem, heq | hmem'⟩
    · cases heq
      rw [OrderedMap.mem_entries] at hmem
      exact .inl (by rw [firstOf, hmem]; rfl)
    · rw [OrderedMap.mem_entries] at hmem hmem'
      exact .inr ⟨p, by rw [secondOf, hmem]; exact hmem'⟩
  · rintro (h | ⟨p, h⟩)
    · obtain ⟨e, hfind, rfl⟩ := Option.map_eq_some_iff.mp h
      exact ⟨(name, e), OrderedMap.mem_entries.mpr hfind, .inl rfl⟩
    · obtain ⟨e, hfind, hsecond⟩ := Option.bind_eq_some_iff.mp h
      exact ⟨(p, e), OrderedMap.mem_entries.mpr hfind, .inr (OrderedMap.mem_entries.mpr hsecond)⟩

-- ---------------------------------------------------------------------------
-- Push and Pop
-- ---------------------------------------------------------------------------

/-- The walker at the end of the path. -/
def StatWalker.atPath (sw : StatWalker δ) (path : List (StatNode δ)) : StatWalker δ :=
  { sw with nodes_ := fullNodes [] path }

/-- The call for the path. -/
def pathInsert (sw : StatWalker δ) (path : List (StatNode δ)) : StatInsert δ :=
  let attribs_tag := (pathTags sw.top_tags_ path).foldl FillTag OrderedMap.empty
  ⟨sw.timestamp_, sw.stat_name_, dottedPath (path.map (·.name)), attribs_tag,
    tagsAsAttribs (.ofList (ownAttribs path)) attribs_tag⟩

theorem Push_atPath (sw : StatWalker δ) (path : List (StatNode δ)) {node : StatNode δ}
    (h : node.IsLocal) : (sw.atPath path).Push node = some (sw.atPath (path ++ [node])) := by
  have hprename : appendName ((fullNodes [] path).foldl
      (fun prename ancestor => appendName prename ancestor.name) []) node.name =
        dottedPath (path.map (·.name) ++ [node.name]) := by
    rw [← List.foldl_map, names_fullNodes, ← foldl_appendName_nil, List.foldl_append]
    rfl
  simp only [StatWalker.Push, StatWalker.atPath, hprename, qualifyAll_eq _ h.tags,
    qualifyAll_eq _ h.attribs, fullNodes_append]
  rfl

theorem isLocal_of_Push {sw : StatWalker δ} {node : StatNode δ} (h : (sw.Push node).isSome) :
    node.IsLocal := by
  obtain ⟨sw', h⟩ := Option.isSome_iff_exists.mp h
  obtain ⟨tags, htags, h⟩ := Option.bind_eq_some_iff.mp h
  obtain ⟨attribs, hattribs, -⟩ := Option.bind_eq_some_iff.mp h
  exact ⟨qualifyAll_isSome (by rw [htags]; rfl), qualifyAll_isSome (by rw [hattribs]; rfl)⟩

theorem foldl_nodes (nodes : List (StatNode δ)) (prename : Text) (m : AttribsTag δ) :
    nodes.foldl (fun s ancestor =>
      (appendName s.1 ancestor.name, ancestor.tags.entries.foldl FillTag s.2)) (prename, m) =
      ((nodes.map (·.name)).foldl appendName prename,
        (nodes.flatMap fun node => node.tags.entries).foldl FillTag m) := by
  induction nodes generalizing prename m with
  | nil => rfl
  | cons node nodes ih =>
    rw [List.foldl_cons, ih, List.map_cons, List.foldl_cons, List.flatMap_cons, List.foldl_append]

theorem Pop_atPath (sw : StatWalker δ) (path : List (StatNode δ)) (node : StatNode δ) :
    (sw.atPath (path ++ [node])).Pop = some (sw.atPath path, pathInsert sw (path ++ [node])) := by
  have hback : (fullNodes [] (path ++ [node])).getLast? =
      some (node.full (path.map (·.name))) := by
    rw [fullNodes_append, List.getLast?_concat, List.nil_append]
  have hdrop : (fullNodes [] (path ++ [node])).dropLast = fullNodes [] path := by
    rw [fullNodes_append, List.dropLast_concat]
  have hown : OrderedMap.ofList (ownAttribs (path ++ [node])) =
      (node.full (path.map (·.name))).attribs := by
    refine OrderedMap.ext_find fun k => ?_
    rw [OrderedMap.find?_ofList, ownAttribs, hback]
    rfl
  rw [StatWalker.Pop, StatWalker.atPath, hback]
  simp only [foldl_nodes, hdrop]
  rw [names_fullNodes, foldl_appendName_nil, ← List.foldl_append, pathInsert, hown]
  rfl

theorem isInsert_pathInsert (sw : StatWalker δ) (path : List (StatNode δ)) :
    IsInsert sw path (pathInsert sw path) := by
  have hspec := foldl_FillTag (pathTags sw.top_tags_ path) OrderedMap.empty
  have hfirst : ∀ p, firstOf (pathInsert sw path).attribs_tag p =
      findList p ((pathTags sw.top_tags_ path).map firstLevel) := fun p => (hspec p).1
  have hsecond : ∀ p s, secondOf (pathInsert sw path).attribs_tag p s =
      findList s ((pathTags sw.top_tags_ path).filterMap (secondLevel p)) := fun p => (hspec p).2
  refine ⟨rfl, rfl, rfl, hfirst, hsecond, fun name v h => ?_, fun name h => ?_⟩
  · rw [pathInsert, find?_tagsAsAttribs, OrderedMap.find?_ofList, h]
    rfl
  · have hfind : (pathInsert sw path).attribs.find? name =
        findList name (tagAttribs (pathInsert sw path).attribs_tag) := by
      rw [pathInsert, find?_tagsAsAttribs, OrderedMap.find?_ofList, h, Option.none_or]
    have hmem : ∀ v, (name, v) ∈ tagAttribs (pathInsert sw path).attribs_tag ↔
        findList name ((pathTags sw.top_tags_ path).map firstLevel) = some v ∨
          ∃ p, findList name ((pathTags sw.top_tags_ path).filterMap (secondLevel p)) = some v := by
      intro v
      rw [mem_tagAttribs, hfirst]
      simp only [hsecond]
    rw [hfind]
    refine ⟨?_, fun v hv => (hmem v).mp (mem_of_findList hv)⟩
    rw [findList_isSome_iff, exists_congr hmem, exists_or]
    simp only [Option.isSome_iff_exists, exists_comm (α := Var δ)]

theorem stat_walk (timestamp : Nat) (statName : Text) (tags : OrderedMap Text (TagVal δ)) :
    ∃ answer : List (StatNode δ) → StatInsert δ,
      (∀ path, IsInsert (.new timestamp statName tags) path (answer path)) ∧
      ∀ calls, WellNested 0 calls → (∀ node, .opening node ∈ calls → node.IsLocal) →
        ∃ f : Forest (StatNode δ), f.brackets = calls ∧
          walk StatWalker.Push StatWalker.Pop (.new timestamp statName tags) calls =
            some (.new timestamp statName tags, (f.paths []).map answer) := by
  let sw : StatWalker δ := .new timestamp statName tags
  refine ⟨pathInsert sw, isInsert_pathInsert sw, fun calls hnested hlocal => ?_⟩
  obtain ⟨f, rfl⟩ := exists_forest hnested
  have hwalk := walk_brackets (Push_atPath sw) (Pop_atPath sw)
    (Forest.all_of_brackets hlocal) [] []
  rw [List.append_nil] at hwalk
  refine ⟨f, rfl, hwalk.trans ?_⟩
  rw [walk, Option.map_some, List.append_nil]
  rfl

/-- A node with one tag, which has the prefix `table` and no value. -/
def bankNode : StatNode Nat :=
  ⟨"virt".toList, OrderedMap.empty.insert "bank".toList
    ⟨("table".toList, .STRING "table1".toList), .INVALID⟩, .empty⟩

/-- A node with a tag below `table`, and two nodes within it. -/
def virtNode : StatNode Nat :=
  ⟨"virt".toList, OrderedMap.empty.insert "bank".toList
    ⟨("table".toList, .STRING "table1".toList), .STRING "b1".toList⟩, .empty⟩

def cubeNode : StatNode Nat :=
  ⟨"cube".toList, OrderedMap.empty.insert "side".toList ⟨([], .INVALID), .STRING "left".toList⟩,
    OrderedMap.empty.insert "k".toList (.UINT64 1)⟩

def flatNode : StatNode Nat :=
  ⟨"flat".toList, .empty, OrderedMap.empty.insert "k".toList (.UINT64 2)⟩

def sampleTopTags : OrderedMap Text (TagVal Nat) :=
  OrderedMap.empty.insert "Source".toList ⟨([], .INVALID), .STRING "h".toList⟩

def sampleCalls : List (Bracket (StatNode Nat)) :=
  [.opening virtNode, .opening cubeNode, .closing, .opening flatNode, .closing, .closing]

/-- The call for the second of two nodes has the tags of the top level and of the node
around it, and not those of the first. -/
theorem stat_walk_sample :
    ∃ answer : List (StatNode Nat) → StatInsert Nat,
      walk StatWalker.Push StatWalker.Pop (.new 0 "DoubleTag".toList sampleTopTags) sampleCalls =
        some (.new 0 "DoubleTag".toList sampleTopTags,
          [answer [virtNode, cubeNode], answer [virtNode, flatNode], answer [virtNode]]) ∧
      (answer [virtNode, flatNode]).statAttr = "virt.flat".toList ∧
      (answer [virtNode, flatNode]).attribs.find? "virt.flat.k".toList = some (.UINT64 2) ∧
      ((answer [virtNode, flatNode]).attribs_tag.find? "Source".toList).map Prod.fst =
        some (.STRING "h".toList) ∧
      ((answer [virtNode, flatNode]).attribs_tag.find? "table".toList).bind
        (fun e => e.2.find? "virt.bank".toList) = some (.STRING "b1".toList) ∧
      ((answer [virtNode, cubeNode]).attribs_tag.find? "virt.cube.side".toList).map Prod.fst =
        some (.STRING "left".toList) ∧
      ((answer [virtNode, flatNode]).attribs_tag.find? "virt.cube.side".toList).map Prod.fst =
        none := by
  obtain ⟨answer, hinsert, h⟩ := stat_walk (δ := Nat) 0 "DoubleTag".toList sampleTopTags
  have hlocal : ∀ node, Bracket.opening node ∈ sampleCalls → node.IsLocal := by
    intro node hnode
    have hnodes : node = virtNode ∨ node = cubeNode ∨ node = flatNode := by
      simpa [sampleCalls] using hnode
    rcases hnodes with rfl | rfl | rfl
    · exact ⟨by decide, by decide⟩
    · exact ⟨by decide, by decide⟩
    · exact ⟨by decide, by decide⟩
  obtain ⟨f, hbrackets, hwalk⟩ := h sampleCalls
    ⟨Nat.succ_pos 1, Nat.succ_pos 1, Nat.succ_pos 0, rfl⟩ hlocal
  have hpaths : f.paths [] = [[virtNode, cubeNode], [virtNode, flatNode], [virtNode]] :=
    paths_eq_of_brackets (g := .node virtNode (.node cubeNode .nil (.node flatNode .nil .nil)) .nil)
      hbrackets
  rw [hpaths] at hwalk
  have hflat := hinsert [virtNode, flatNode]
  have hcube := hinsert [virtNode, cubeNode]
  exact ⟨answer, hwalk, hflat.statAttr.trans rfl, hflat.own _ _ rfl, (hflat.first _).trans rfl,
    (hflat.second _ _).trans rfl, (hcube.first _).trans rfl, (hflat.first _).trans rfl⟩

/-- A tag without a value is no second-level entry of its prefix. -/
theorem not_prefixed_tag_entered :
    ¬ ∀ (node : StatNode Nat) (sw : StatWalker Nat) (call : StatInsert Nat), node.IsLocal →
      walk StatWalker.Push StatWalker.Pop (.new 0 "DoubleTag".toList .empty)
        [.opening node, .closing] = some (sw, [call]) →
      ∀ ti ∈ node.tags.entries, ti.2.tagPrefix.2.isInvalid = false →
        ((call.attribs_tag.find? ti.2.tagPrefix.1).bind fun e =>
          e.2.find? (node.name ++ '.' :: ti.1)).isSome := by
  intro h
  have := h bankNode _ _ ⟨by decide, by decide⟩ rfl _ List.mem_cons_self rfl
  exact absurd this (by decide)

end TfAnalytics.Collector
