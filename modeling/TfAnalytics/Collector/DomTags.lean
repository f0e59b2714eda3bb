import TfAnalytics.Lib.Delimited
import TfAnalytics.Collector.StatWalker

/-!
# Collector — the tags annotation of a statistics attribute

`ParseDomTags` (ruleeng.cc) goes over an annotation twice: `DomTopStatWalker` takes the
attributes of the object from it, `DomStatWalker` the attributes of the element and of the
level above. The tags of an element go to `StatWalker` in a map by the suffixes of the terms.

* `terms_indexed_iff`: which annotations are indexed in full.
-/

namespace TfAnalytics.Collector

open TfAnalytics.Lib

variable {δ : Type}

-- ---------------------------------------------------------------------------
-- Elements
-- ---------------------------------------------------------------------------

def STAT_VALUE_FIELD : Text := "__value".toList

/-- `ElemT`: a value, or the children of a struct, with the key in the map. Of a child there is
the name, what `ParseNode` makes of it, and if it has them its annotation and its elements. -/
inductive Elem (δ : Type) where
  | basic (dv : Var δ) (key : Text)
  | struct (children : List (Text × Var δ × Option (Text × List (Elem δ)))) (key : Text)

def Elem.key : Elem δ → Text
  | .basic _ key => key
  | .struct _ key => key

def Elem.children : Elem δ → List (Text × Var δ × Option (Text × List (Elem δ)))
  | .basic _ _ => []
  | .struct children _ => children

/-- `GetResult` of a `DomChildVisitor`, then `ParseNode`; `none` where there is no node. -/
def Elem.childVar (e : Elem δ) (sub : Text) : Option (Var δ) :=
  (e.children.find? fun child => child.1 = sub).map fun child => child.2.1

/-- The attributes that `DomStatVisitor` loads, and the key. -/
def Elem.attribs (e : Elem δ) : Attribs δ :=
  let attribs : Attribs δ :=
    match e with
    | .basic dv _ => OrderedMap.empty.insert STAT_VALUE_FIELD dv
    | .struct children _ => children.foldl (fun attribs sattr =>
        if sattr.2.1.isInvalid then attribs else attribs.insert sattr.1 sattr.2.1) OrderedMap.empty
  if e.key ≠ [] then attribs.insert STATS_KEY_FIELD (.STRING e.key) else attribs

/-- Its `elem_map`. -/
def Elem.elem_map (e : Elem δ) : OrderedMap Text (Text × List (Elem δ)) :=
  e.children.foldl (fun elem_map sattr =>
    if sattr.2.1.isInvalid then
      match sattr.2.2 with
      | none => elem_map
      | some stat => elem_map.assign sattr.1 stat
    else elem_map) OrderedMap.empty

-- ---------------------------------------------------------------------------
-- ParseDomTags
-- ---------------------------------------------------------------------------

/-- `pterm` and `sterm`. -/
def splitTerm (term : Text) : Text × Text :=
  match splitFirst ':' term with
  | none => ([], term)
  | some (pterm, sterm) => (pterm, sterm)

/-- The terms that the loop comes to. -/
def terms (tstr : Text) : List (Text × Text) :=
  if tstr = [] then [] else (tstr.splitOn ',').map splitTerm

/-- With `toptags`. -/
def ParseTopTags (tstr : Text) : Option (List Text) :=
  (terms tstr).foldlM (fun toptags term =>
    if term.2 = [] then none
    else if term.2.head? ≠ some '.' then
      if term.1 ≠ [] then none else some (toptags ++ [term.2])
    else some toptags) []

/-- The value of a tag at an element. -/
def Elem.tagVar (e : Elem δ) (name : Text) : Option (Var δ) :=
  if name = STATS_KEY_FIELD then some (.STRING e.key) else e.childVar name

/-- `pname`, for the prefix of a term at the element `idx` of the chain. -/
def prefixName (elem_chain : List (Text × Elem δ)) (idx : Nat) (pterm : Text) : Text :=
  let pname := (((elem_chain.drop 1).take idx).map Prod.fst).foldl appendName []
  (if pterm.head? ≠ some '.' ∧ pname ≠ [] then pname ++ ['.'] else pname) ++ pterm

/-- The tag of a term with the suffix `.sname`; `none` where an attribute is missing. -/
def elemTag (elem_chain : List (Text × Elem δ)) (pterm sname : Text) : Option (TagVal δ) := do
  let sz := elem_chain.length
  let deepest ← elem_chain[sz - 1]?
  let val ← deepest.2.tagVar sname
  if pterm = [] then return ⟨([], .INVALID), val⟩
  else
    let idx := if pterm.head? = some '.' then sz - 1 else sz - 2
    let pattr := (pterm.reverse.takeWhile (· ≠ '.')).reverse
    let level ← elem_chain[idx]?
    let pv ← level.2.tagVar pattr
    return ⟨(prefixName elem_chain idx pterm, pv), val⟩

/-- With `elem_chain` and `tagmap`. -/
def ParseElemTags (elem_chain : List (Text × Elem δ)) (tstr : Text) :
    Option (OrderedMap Text (TagVal δ)) :=
  (terms tstr).foldlM (fun tagmap term =>
    match term.2 with
    | [] => none
    | c :: sname =>
      if c ≠ '.' then some tagmap
      else (elemTag elem_chain term.1 sname).map fun tv => tagmap.insert sname tv) OrderedMap.empty

-- ---------------------------------------------------------------------------
-- The walk to an element
-- ---------------------------------------------------------------------------

def plainTag (val : Var δ) : TagVal δ := ⟨([], .INVALID), val⟩

/-- The tags of every statistic: the name of the object and the source. -/
def objectTags (nkey : Var δ) (source : Text) : OrderedMap Text (TagVal δ) :=
  (OrderedMap.empty.insert STATS_NAME_FIELD (plainTag nkey)).insert STATS_SOURCE_FIELD
    (plainTag (.STRING source))

/-- `m1` of `DomTopStatWalker`. -/
def topTagMap (object : Elem δ) (tmap : OrderedMap Text (TagVal δ)) (toptags : List Text) :
    OrderedMap Text (TagVal δ) :=
  toptags.foldl (fun m1 toptag =>
    m1.insert toptag (plainTag ((object.childVar toptag).getD .INVALID))) tmap

/-- What `DomStatWalker` pushes for the last element of the chain. -/
def pushedNode (elem_chain : List (Text × Elem δ)) (tstr : Text) : Option (StatNode δ) := do
  let last ← elem_chain.getLast?
  let tagmap ← ParseElemTags elem_chain tstr
  return ⟨last.1, tagmap, last.2.attribs⟩

/-- The nodes of a path pushed in turn. -/
def pushAll (sw : StatWalker δ) (path : List (StatNode δ)) : Option (StatWalker δ) :=
  path.foldlM StatWalker.Push sw

/-- An element that the walk comes to. -/
structure Visit (δ : Type) where
  sw : StatWalker δ
  elem_chain : List (Text × Elem δ)
  tstr : Text
  path : List (StatNode δ)

/-- The elements that `DomTopStatWalker` and below it `DomStatWalker` are called for. -/
inductive Visited (timestamp : Nat) (objectName : Text) (object : Elem δ)
    (tmap : OrderedMap Text (TagVal δ)) : Visit δ → Prop where
  | top {name tstr : Text} {sample : Var δ} {elems : List (Elem δ)} {e : Elem δ}
      {toptags : List Text} (hchild : (name, sample, some (tstr, elems)) ∈ object.children)
      (hname : name ≠ []) (he : e ∈ elems) (htop : ParseTopTags tstr = some toptags) :
      Visited timestamp objectName object tmap
        ⟨.new timestamp objectName (topTagMap object tmap toptags),
          [(objectName, object), (name, e)], tstr, []⟩
  | nested {v : Visit δ} {last : Text × Elem δ} {node : StatNode δ} {name tstr : Text}
      {elems : List (Elem δ)} {e : Elem δ} (hv : Visited timestamp objectName object tmap v)
      (hlast : v.elem_chain.getLast? = some last)
      (hnode : pushedNode v.elem_chain v.tstr = some node)
      (hpush : (pushAll v.sw (v.path ++ [node])).isSome)
      (hchild : last.2.elem_map.find? name = some (tstr, elems)) (hname : name ≠ [])
      (he : e ∈ elems) :
      Visited timestamp objectName object tmap
        ⟨v.sw, v.elem_chain ++ [(name, e)], tstr, v.path ++ [node]⟩

/-- The call of `StatTableInsert` for the element. -/
def Visit.call (v : Visit δ) : Option (StatInsert δ) := do
  let node ← pushedNode v.elem_chain v.tstr
  let sw ← pushAll v.sw (v.path ++ [node])
  let (_, call) ← sw.Pop
  return call

-- ---------------------------------------------------------------------------
-- What the terms stand for
-- ---------------------------------------------------------------------------

/-- The names on the way to the element, from the attribute of the object on. -/
def levelNames (elem_chain : List (Text × Elem δ)) : List Text := (elem_chain.drop 1).map Prod.fst

/-- The tag that a term stands for, under its full name. -/
def termTag (object : Elem δ) (elem_chain : List (Text × Elem δ)) (term : Text × Text) :
    Option (Text × TagVal δ) :=
  match term.2 with
  | '.' :: sname => (elemTag elem_chain term.1 sname).map fun tv =>
      (dottedPath (levelNames elem_chain) ++ '.' :: sname, tv)
  | sterm => some (sterm, plainTag ((object.childVar sterm).getD .INVALID))

/-- A tag without a prefix is on the first level; a prefixed one is below its prefix. -/
def Entered (attribs_tag : AttribsTag δ) (pterm : Text) (ti : Text × TagVal δ) : Prop :=
  if pterm = [] then firstOf attribs_tag ti.1 = some ti.2.val
  else firstOf attribs_tag ti.2.tagPrefix.1 = some ti.2.tagPrefix.2 ∧
    secondOf attribs_tag ti.2.tagPrefix.1 ti.1 = some ti.2.val

/-- Every term is used by one of the two passes, and all of them are in the tag map. -/
def TermsIndexed (object : Elem δ) (v : Visit δ) (toptags : List Text)
    (tagmap : OrderedMap Text (TagVal δ)) : Prop :=
  (∀ term ∈ terms v.tstr, Xor (term.2 ∈ toptags)
    (∃ sname, term.2 = '.' :: sname ∧ (tagmap.find? sname).isSome)) ∧
  ∃ call, v.call = some call ∧ ∀ term ∈ terms v.tstr,
    ∃ ti, termTag object v.elem_chain term = some ti ∧ Entered call.attribs_tag term.1 ti

/-- The tags of the terms that the element is looked at for, by suffix. -/
def elemTags (elem_chain : List (Text × Elem δ)) (tstr : Text) : List (Text × TagVal δ) :=
  (terms tstr).filterMap fun term =>
    match term.2 with
    | '.' :: sname => (elemTag elem_chain term.1 sname).map fun tv => (sname, tv)
    | _ => none

/-- First-level names with their values, as they are offered: by the tags that are there
already, then by the first term of each suffix. -/
def Visit.offered (v : Visit δ) : List (Text × Var δ) :=
  (pathTags v.sw.top_tags_ v.path ++
    qualified (dottedPath (levelNames v.elem_chain))
      (OrderedMap.ofList (elemTags v.elem_chain v.tstr)).entries).map firstLevel

/-- The first term with the suffix has the prefix `pname` as well, and there are values. -/
def Visit.KeepsPrefix (v : Visit δ) (pname sname : Text) (val : Var δ) : Prop :=
  ∃ tv, findList sname (elemTags v.elem_chain v.tstr) = some tv ∧
    tv.tagPrefix.1 = pname ∧ tv.tagPrefix.2.isInvalid = false ∧ val.isInvalid = false

/-- No local name has a dot; the first to offer the first-level name of a term offers its
value; no prefixed term comes behind one with its suffix and another prefix. -/
structure Visit.Indexes (object : Elem δ) (v : Visit δ) : Prop where
  attribs : ∀ last ∈ v.elem_chain.getLast?, ∀ e ∈ last.2.attribs.entries, '.' ∉ e.1
  suffixes : ∀ e ∈ elemTags v.elem_chain v.tstr, '.' ∉ e.1
  plain : ∀ term ∈ terms v.tstr, ∀ ti ∈ termTag object v.elem_chain term, term.1 = [] →
    findList ti.1 v.offered = some ti.2.val
  prefixed : ∀ term ∈ terms v.tstr, ∀ sname, term.2 = '.' :: sname → term.1 ≠ [] →
    ∀ tv ∈ elemTag v.elem_chain term.1 sname,
      findList tv.tagPrefix.1 v.offered = some tv.tagPrefix.2 ∧
        v.KeepsPrefix tv.tagPrefix.1 sname tv.val

-- ---------------------------------------------------------------------------
-- The two passes
-- ---------------------------------------------------------------------------

theorem ParseTopTags_run {l : List (Text × Text)} {acc toptags : List Text}
    (h : l.foldlM (fun toptags term =>
      if term.2 = [] then none
      else if term.2.head? ≠ some '.' then
        if term.1 ≠ [] then none else some (toptags ++ [term.2])
      else some toptags) acc = some toptags) :
    (∀ term ∈ l, term.2 ≠ [] ∧ (term.2.head? ≠ some '.' → term.1 = [])) ∧
      toptags = acc ++ (l.map Prod.snd).filter fun t => t.head? ≠ some '.' := by
  induction l generalizing acc with
  | nil => simpa using Option.some.inj h.symm
  | cons term l ih =>
    rw [List.foldlM_cons] at h
    by_cases hempty : term.2 = []
    · rw [if_pos hempty] at h
      nomatch h
    · rw [if_neg hempty] at h
      by_cases hdot : term.2.head? = some '.'
      · rw [if_neg (not_not_intro hdot)] at h
        obtain ⟨hterms, rfl⟩ := ih h
        refine ⟨List.forall_mem_cons.mpr ⟨⟨hempty, fun hne => absurd hdot hne⟩, hterms⟩, ?_⟩
        simp [hdot]
      · rw [if_pos hdot] at h
        by_cases hprefix : term.1 = []
        · rw [if_neg (not_not_intro hprefix)] at h
          obtain ⟨hterms, rfl⟩ := ih h
          refine ⟨List.forall_mem_cons.mpr ⟨⟨hempty, fun _ => hprefix⟩, hterms⟩, ?_⟩
          simp [hdot]
        · rw [if_pos hprefix] at h
          nomatch h

theorem ParseTopTags_spec {tstr : Text} {toptags : List Text} (h : ParseTopTags tstr = some toptags) :
    (∀ term ∈ terms tstr, term.2 ≠ [] ∧ (term.2.head? ≠ some '.' → term.1 = [])) ∧
      toptags = ((terms tstr).map Prod.snd).filter fun t => t.head? ≠ some '.' :=
  ParseTopTags_run h

theorem ParseElemTags_run {elem_chain : List (Text × Elem δ)} {l : List (Text × Text)}
    {acc tagmap : OrderedMap Text (TagVal δ)}
    (h : l.foldlM (fun tagmap term =>
      match term.2 with
      | [] => none
      | c :: sname =>
        if c ≠ '.' then some tagmap
        else (elemTag elem_chain term.1 sname).map fun tv => tagmap.insert sname tv) acc =
      some tagmap) :
    (∀ term ∈ l, ∀ sname, term.2 = '.' :: sname → (elemTag elem_chain term.1 sname).isSome) ∧
      tagmap = (l.filterMap fun term =>
        match term.2 with
        | '.' :: sname => (elemTag elem_chain term.1 sname).map fun tv => (sname, tv)
        | _ => none).foldl (fun m e => m.insert e.1 e.2) acc := by
  induction l generalizing acc with
  | nil => simpa using Option.some.inj h.symm
  | cons term l ih =>
    obtain ⟨pterm, sterm⟩ := term
    rw [List.foldlM_cons] at h
    match sterm with
    | [] => nomatch h
    | c :: sname =>
      by_cases hdot : c = '.'
      · subst hdot
        simp only [ne_eq, not_true_eq_false, if_false] at h
        cases htag : elemTag elem_chain pterm sname with
        | none => simp [htag] at h
        | some tv =>
          rw [htag] at h
          obtain ⟨hterms, rfl⟩ := ih h
          refine ⟨List.forall_mem_cons.mpr ⟨fun s hs => ?_, hterms⟩, ?_⟩
          · obtain ⟨-, rfl⟩ := List.cons.inj hs
            rw [htag]
            rfl
          · simp [htag]
      · simp only [ne_eq, hdot, not_false_eq_true, if_true] at h
        obtain ⟨hterms, rfl⟩ := ih h
        refine ⟨List.forall_mem_cons.mpr ⟨fun s hs => ?_, hterms⟩, ?_⟩
        · exact absurd (List.cons.inj hs).1 hdot
        · rw [List.filterMap_cons_none]
          split
          · rename_i heq
            exact absurd (List.cons.inj heq).1 hdot
          · rfl

theorem ParseElemTags_spec {elem_chain : List (Text × Elem δ)} {tstr : Text}
    {tagmap : OrderedMap Text (TagVal δ)} (h : ParseElemTags elem_chain tstr = some tagmap) :
    (∀ term ∈ terms tstr, ∀ sname, term.2 = '.' :: sname →
        (elemTag elem_chain term.1 sname).isSome) ∧
      tagmap = OrderedMap.ofList (elemTags elem_chain tstr) :=
  ParseElemTags_run h

/-- Every term is used by one of the passes. -/
theorem used_once {elem_chain : List (Text × Elem δ)} {tstr : Text} {toptags : List Text}
    {tagmap : OrderedMap Text (TagVal δ)} (htop : ParseTopTags tstr = some toptags)
    (helem : ParseElemTags elem_chain tstr = some tagmap) :
    ∀ term ∈ terms tstr, Xor (term.2 ∈ toptags)
      (∃ sname, term.2 = '.' :: sname ∧ (tagmap.find? sname).isSome) := by
  intro term hterm
  obtain ⟨hne, rfl⟩ := ParseTopTags_spec htop
  obtain ⟨hsome, rfl⟩ := ParseElemTags_spec helem
  obtain ⟨pterm, sterm⟩ := term
  match sterm, hne _ hterm with
  | c :: sname, _ =>
    by_cases hdot : c = '.'
    · subst hdot
      refine .inr ⟨⟨sname, rfl, ?_⟩, by simp⟩
      obtain ⟨tv, htv⟩ := Option.isSome_iff_exists.mp (hsome _ hterm sname rfl)
      rw [OrderedMap.find?_ofList, findList_isSome_iff]
      exact ⟨tv, List.mem_filterMap.mpr ⟨_, hterm, by simp [htv]⟩⟩
    · refine .inl ⟨?_, ?_⟩
      · exact List.mem_filter.mpr ⟨List.mem_map_of_mem hterm, by simpa using hdot⟩
      · rintro ⟨s, hs, -⟩
        exact hdot (List.cons.inj hs).1

-- ---------------------------------------------------------------------------
-- The walk
-- ---------------------------------------------------------------------------

theorem pushAll_atPath (sw : StatWalker δ) {path : List (StatNode δ)}
    (h : ∀ node ∈ path, node.IsLocal) (pre : List (StatNode δ)) :
    pushAll (sw.atPath pre) path = some (sw.atPath (pre ++ path)) := by
  induction path generalizing pre with
  | nil => rw [List.append_nil]; rfl
  | cons node path ih =>
    obtain ⟨hnode, hpath⟩ := List.forall_mem_cons.mp h
    rw [pushAll, List.foldlM_cons, Push_atPath sw pre hnode]
    exact (ih hpath (pre ++ [node])).trans (by rw [List.append_assoc]; rfl)

theorem isLocal_of_pushAll {sw : StatWalker δ} {path : List (StatNode δ)}
    (h : (pushAll sw path).isSome) : ∀ node ∈ path, node.IsLocal := by
  induction path generalizing sw with
  | nil => exact List.forall_mem_nil _
  | cons node path ih =>
    rw [pushAll, List.foldlM_cons] at h
    cases hpush : sw.Push node with
    | none => rw [hpush] at h; nomatch h
    | some sw' =>
      rw [hpush] at h
      exact List.forall_mem_cons.mpr ⟨isLocal_of_Push (by rw [hpush]; rfl), ih h⟩

/-- What holds at every element that the walk comes to. -/
structure Visit.Sound (object : Elem δ) (v : Visit δ) : Prop where
  nodes : v.sw.nodes_ = []
  top : ∀ ti ∈ v.sw.top_tags_.entries, ti.2.tagPrefix.2.isInvalid = true
  chain : ∃ objectName levels last, v.elem_chain = (objectName, object) :: (levels ++ [last])
  names : v.path.map (·.name) = (levelNames v.elem_chain).dropLast
  nonempty : ∀ name ∈ levelNames v.elem_chain, name ≠ []
  isLocal : ∀ node ∈ v.path, node.IsLocal

theorem topTagMap_plain {object : Elem δ} {tmap : OrderedMap Text (TagVal δ)}
    (htmap : ∀ name tv, tmap.find? name = some tv → tv.tagPrefix.2.isInvalid = true)
    (toptags : List Text) :
    ∀ name tv, (topTagMap object tmap toptags).find? name = some tv →
      tv.tagPrefix.2.isInvalid = true := by
  unfold topTagMap
  induction toptags generalizing tmap with
  | nil => exact htmap
  | cons toptag toptags ih =>
    refine ih fun name tv h => ?_
    rw [OrderedMap.find?_insert] at h
    split at h
    · cases hfind : tmap.find? toptag with
      | none =>
        rw [hfind] at h
        obtain rfl := Option.some.inj h
        rfl
      | some old =>
        rw [hfind] at h
        obtain rfl := Option.some.inj h
        exact htmap toptag old hfind
    · exact htmap name tv h

theorem objectTags_plain (nkey : Var δ) (source : Text) :
    ∀ name tv, (objectTags nkey source).find? name = some tv →
      tv.tagPrefix.2.isInvalid = true := by
  intro name tv h
  rw [objectTags, OrderedMap.find?_insert, OrderedMap.find?_insert, OrderedMap.find?_insert] at h
  split at h
  · obtain rfl := Option.some.inj h
    rfl
  · split at h
    · obtain rfl := Option.some.inj h
      rfl
    · nomatch h

theorem Visited.sound {timestamp : Nat} {objectName : Text} {object : Elem δ} {nkey : Var δ}
    {source : Text} {v : Visit δ}
    (h : Visited timestamp objectName object (objectTags nkey source) v) : v.Sound object := by
  induction h with
  | top hchild hname he htop =>
    refine ⟨rfl, ?_, ⟨_, [], _, rfl⟩, rfl, ?_, List.forall_mem_nil _⟩
    · rintro ⟨name, tv⟩ hti
      exact topTagMap_plain (objectTags_plain nkey source) _ name tv
        (OrderedMap.mem_entries.mp hti)
    · simpa [levelNames] using hname
  | @nested v last node name tstr elems e hv hlast hnode hpush hchild hname he ih =>
    obtain ⟨objectName, levels, last', hchain⟩ := ih.chain
    have hlevels : levelNames (v.elem_chain ++ [(name, e)]) = levelNames v.elem_chain ++ [name] := by
      simp [levelNames, hchain]
    obtain ⟨last'', hlast'', hnode⟩ := Option.bind_eq_some_iff.mp hnode
    obtain ⟨tagmap, -, hnode⟩ := Option.bind_eq_some_iff.mp hnode
    obtain rfl := Option.some.inj hnode
    refine ⟨ih.nodes, ih.top, ⟨objectName, levels ++ [last'], (name, e), ?_⟩, ?_, ?_, ?_⟩
    · rw [hchain]
      simp
    · rw [hlevels, List.dropLast_concat, List.map_append, ih.names]
      have heq : last'' = last' := by
        rw [hchain, List.getLast?_cons, List.getLast?_concat] at hlast''
        exact (Option.some.inj hlast'').symm
      simp [levelNames, hchain, heq]
    · rw [hlevels]
      exact List.forall_mem_append.mpr ⟨ih.nonempty, by simpa using hname⟩
    · exact isLocal_of_pushAll hpush

-- ---------------------------------------------------------------------------
-- The call
-- ---------------------------------------------------------------------------

theorem Visit.Sound.levelNames_eq {object : Elem δ} {v : Visit δ} (h : v.Sound object) :
    ∃ last, levelNames v.elem_chain = v.path.map (·.name) ++ [last] := by
  obtain ⟨objectName, levels, last, hchain⟩ := h.chain
  refine ⟨last.1, ?_⟩
  rw [h.names]
  simp [levelNames, hchain]

theorem Visit.Sound.call_eq {object : Elem δ} {v : Visit δ} (h : v.Sound object)
    {last : Text × Elem δ} (hlast : v.elem_chain.getLast? = some last)
    {tagmap : OrderedMap Text (TagVal δ)}
    (helem : ParseElemTags v.elem_chain v.tstr = some tagmap) {call : StatInsert δ} :
    v.call = some call ↔ (⟨last.1, tagmap, last.2.attribs⟩ : StatNode δ).IsLocal ∧
      pathInsert v.sw (v.path ++ [⟨last.1, tagmap, last.2.attribs⟩]) = call := by
  have hstart : v.sw.atPath [] = v.sw := by
    rw [StatWalker.atPath, fullNodes, ← h.nodes]
  have hnode : pushedNode v.elem_chain v.tstr = some ⟨last.1, tagmap, last.2.attribs⟩ := by
    rw [pushedNode, hlast, helem]
    rfl
  generalize (⟨last.1, tagmap, last.2.attribs⟩ : StatNode δ) = node at hnode
  have hcall : v.call = (pushAll v.sw (v.path ++ [node])).bind fun sw =>
      sw.Pop.map fun popped => popped.2 := by
    rw [Visit.call, hnode]
    show ((pushAll v.sw (v.path ++ [node])).bind fun sw => sw.Pop.bind fun popped => some popped.2) = _
    exact Option.bind_congr fun sw _ => by rw [Option.map_eq_bind]; rfl
  rw [hcall]
  by_cases hlocal : node.IsLocal
  · have hall : ∀ n ∈ v.path ++ [node], n.IsLocal :=
      List.forall_mem_append.mpr ⟨h.isLocal, by simpa using hlocal⟩
    rw [← hstart, pushAll_atPath v.sw hall [], List.nil_append]
    show (v.sw.atPath (v.path ++ [node])).Pop.map _ = _ ↔ _
    rw [Pop_atPath, hstart]
    simp [hlocal]
  · cases hpush : pushAll v.sw (v.path ++ [node]) with
    | none => simp [hlocal]
    | some sw =>
      have := isLocal_of_pushAll (by rw [hpush]; rfl) node (by simp)
      exact absurd this hlocal

/-- The tags at the call, in order. -/
theorem Visit.Sound.pathTags_eq {object : Elem δ} {v : Visit δ} (h : v.Sound object)
    {last : Text × Elem δ} (hlast : v.elem_chain.getLast? = some last)
    (tagmap : OrderedMap Text (TagVal δ)) (attribs : Attribs δ) :
    pathTags v.sw.top_tags_ (v.path ++ [⟨last.1, tagmap, attribs⟩]) =
      pathTags v.sw.top_tags_ v.path ++
        qualified (dottedPath (levelNames v.elem_chain)) tagmap.entries := by
  have hnames : v.path.map (·.name) ++ [last.1] = levelNames v.elem_chain := by
    obtain ⟨objectName, levels, last', hchain⟩ := h.chain
    have heq : last = last' := by
      rw [hchain, List.getLast?_cons, List.getLast?_concat] at hlast
      exact (Option.some.inj hlast).symm
    rw [h.names]
    simp [levelNames, hchain, heq]
  rw [pathTags, fullNodes_append, List.flatMap_append, List.nil_append, ← List.append_assoc]
  simp [pathTags, StatNode.full, hnames]

/-- Full names tell the level and the local name. -/
theorem fullName_inj {prename prename' x x' : Text} (hx : '.' ∉ x) (hx' : '.' ∉ x')
    (h : prename ++ '.' :: x = prename' ++ '.' :: x') : prename = prename' ∧ x = x' := by
  have hfree : ∀ f ∈ [x], '.' ∉ f := by simpa using hx
  have hfree' : ∀ f ∈ [x'], '.' ∉ f := by simpa using hx'
  obtain ⟨hp, hy⟩ := @joinAfter_inj _ _ '.' [x] [x'] prename prename' hfree hfree' rfl
    (by simpa [joinAfter] using h)
  exact ⟨hp, (List.cons.inj hy).1⟩

theorem findList_qualified {β γ : Type} (prename x : Text) (g : Text × β → Option (Text × γ))
    (hg : ∀ e e', g e = some e' → e'.1 = e.1) {l : List (Text × β)} (hl : KeysLt l) :
    findList (prename ++ '.' :: x) ((qualified prename l).filterMap g) =
      (findList x l).bind fun tv => (g (prename ++ '.' :: x, tv)).map Prod.snd := by
  induction l with
  | nil => rfl
  | cons e l ih =>
    obtain ⟨y, tv⟩ := e
    obtain ⟨hlt, hl⟩ := List.pairwise_cons.mp hl
    have ih := ih hl
    rw [findList]
    show findList _ (((prename ++ '.' :: y, tv) :: qualified prename l).filterMap g) = _
    cases hgy : g (prename ++ '.' :: y, tv) with
    | none =>
      rw [List.filterMap_cons_none hgy, ih]
      by_cases hxy : x = y
      · subst hxy
        rw [if_pos rfl, findList_eq_none_of_lt hlt, Option.bind_none, Option.bind_some, hgy]
        rfl
      · rw [if_neg hxy]
    | some e' =>
      obtain ⟨name, c⟩ := e'
      obtain rfl : name = prename ++ '.' :: y := hg _ _ hgy
      rw [List.filterMap_cons_some hgy, findList]
      by_cases hxy : x = y
      · subst hxy
        rw [if_pos rfl, if_pos rfl, Option.bind_some, hgy]
        rfl
      · rw [if_neg hxy, if_neg (by simpa using hxy), ih]

theorem length_lt_appendName (prename : Text) {name : Text} (h : name ≠ []) :
    prename.length < (appendName prename name).length := by
  have := List.length_pos_iff.mpr h
  unfold appendName
  split
  · rw [List.length_append, List.length_append]
    omega
  · rw [List.length_append]
    omega

/-- A level is deeper than those on the way to it. -/
theorem dottedPath_lt {names rest : List Text} (hrest : rest ≠ [])
    (hne : ∀ name ∈ rest, name ≠ []) :
    (dottedPath names).length < (dottedPath (names ++ rest)).length := by
  rw [← foldl_appendName_nil, ← foldl_appendName_nil, List.foldl_append]
  generalize names.foldl appendName [] = prename
  induction rest generalizing prename with
  | nil => exact absurd rfl hrest
  | cons name rest ih =>
    obtain ⟨hname, hne⟩ := List.forall_mem_cons.mp hne
    have hstep := length_lt_appendName prename hname
    by_cases h : rest = []
    · subst h
      exact hstep
    · exact Nat.lt_trans hstep (ih h hne _)

/-- Where the tag of a node on the path has its name from. -/
theorem mem_fullNodes {pre : List Text} {path : List (StatNode δ)} {e : Text × TagVal δ}
    (h : e ∈ (fullNodes pre path).flatMap fun node => node.tags.entries) :
    ∃ node ∈ path, ∃ names, names <+: path.map (·.name) ∧ ∃ y ∈ node.tags.entries,
      e = (dottedPath (pre ++ names) ++ '.' :: y.1, y.2) := by
  induction path generalizing pre with
  | nil => nomatch h
  | cons node path ih =>
    rw [fullNodes, List.flatMap_cons, List.mem_append] at h
    rcases h with h | h
    · obtain ⟨y, hy, rfl⟩ := List.mem_map.mp h
      exact ⟨node, List.mem_cons_self, [node.name], by simp, y, hy, rfl⟩
    · obtain ⟨n, hn, names, hnames, y, hy, rfl⟩ := ih h
      refine ⟨n, List.mem_cons_of_mem _ hn, node.name :: names, ?_, y, hy, by simp⟩
      exact List.cons_prefix_cons.mpr ⟨rfl, hnames⟩

/-- Nothing that is there already has the name of a tag of the element. -/
theorem Visit.Sound.fresh {object : Elem δ} {v : Visit δ} (h : v.Sound object) {sname : Text}
    (hdot : '.' ∉ sname) (p : Text) :
    findList (dottedPath (levelNames v.elem_chain) ++ '.' :: sname)
      ((pathTags v.sw.top_tags_ v.path).filterMap (secondLevel p)) = none := by
  rw [← Option.not_isSome_iff_eq_none, findList_isSome_iff]
  rintro ⟨val, hmem⟩
  obtain ⟨ti, hti, hsecond⟩ := List.mem_filterMap.mp hmem
  unfold secondLevel at hsecond
  split at hsecond
  · rename_i hvalid
    rcases List.mem_append.mp hti with hti | hti
    · rw [h.top ti hti] at hvalid
      nomatch hvalid.1
    · obtain ⟨node, hnode, names, hnames, y, hy, rfl⟩ := mem_fullNodes hti
      have hname := congrArg Prod.fst (Option.some.inj hsecond)
      obtain ⟨heq, -⟩ := fullName_inj ((h.isLocal node hnode).tags y hy) hdot hname
      obtain ⟨rest, hrest⟩ := hnames
      obtain ⟨last, hlast⟩ := h.levelNames_eq
      have hlevels : levelNames v.elem_chain = names ++ (rest ++ [last]) := by
        rw [hlast, ← hrest, List.append_assoc]
      have hlt := @dottedPath_lt names (rest ++ [last]) (by simp) fun name hname =>
        h.nonempty name (hlevels ▸ List.mem_append_right names hname)
      rw [← hlevels, ← heq, List.nil_append] at hlt
      exact absurd hlt (Nat.lt_irrefl _)
  · nomatch hsecond

/-- The value of a tag is that of its suffix, and without a prefix there is nothing else. -/
theorem elemTag_spec {elem_chain : List (Text × Elem δ)} {pterm sname : Text} {tv : TagVal δ}
    (h : elemTag elem_chain pterm sname = some tv) :
    (elem_chain[elem_chain.length - 1]?.bind fun deepest => deepest.2.tagVar sname) = some tv.val ∧
      (pterm = [] → tv = plainTag tv.val) := by
  obtain ⟨deepest, hdeepest, h⟩ := Option.bind_eq_some_iff.mp h
  obtain ⟨val, hval, h⟩ := Option.bind_eq_some_iff.mp h
  rw [hdeepest, Option.bind_some, hval]
  by_cases hp : pterm = []
  · rw [if_pos hp] at h
    obtain rfl := Option.some.inj h
    exact ⟨rfl, fun _ => rfl⟩
  · rw [if_neg hp] at h
    obtain ⟨level, -, h⟩ := Option.bind_eq_some_iff.mp h
    obtain ⟨pv, -, h⟩ := Option.bind_eq_some_iff.mp h
    obtain rfl := Option.some.inj h
    exact ⟨rfl, fun hempty => absurd hempty hp⟩

theorem mem_elemTags {elem_chain : List (Text × Elem δ)} {tstr sname : Text} {tv : TagVal δ} :
    (sname, tv) ∈ elemTags elem_chain tstr ↔
      ∃ term ∈ terms tstr, term.2 = '.' :: sname ∧ elemTag elem_chain term.1 sname = some tv := by
  refine List.mem_filterMap.trans (exists_congr fun term => and_congr_right fun _ => ?_)
  obtain ⟨pterm, sterm⟩ := term
  dsimp only
  split
  · rename_i s heq
    rw [Option.map_eq_some_iff]
    constructor
    · rintro ⟨tv', htv', heq'⟩
      cases heq'
      exact ⟨rfl, htv'⟩
    · rintro ⟨heq', htv⟩
      obtain ⟨-, rfl⟩ := List.cons.inj heq'
      exact ⟨tv, htv, rfl⟩
  · rename_i hne
    exact ⟨(nomatch ·), fun h => absurd h.1 (hne sname)⟩

/-- The second level below a prefix. -/
theorem Visit.Sound.second_iff {object : Elem δ} {v : Visit δ} (h : v.Sound object)
    {pterm sname : Text} {tv : TagVal δ} (htag : elemTag v.elem_chain pterm sname = some tv)
    (hdot : '.' ∉ sname) (p : Text) :
    findList (dottedPath (levelNames v.elem_chain) ++ '.' :: sname)
      ((pathTags v.sw.top_tags_ v.path ++ qualified (dottedPath (levelNames v.elem_chain))
        (OrderedMap.ofList (elemTags v.elem_chain v.tstr)).entries).filterMap (secondLevel p)) =
      some tv.val ↔ v.KeepsPrefix p sname tv.val := by
  have hkey : ∀ (e : Text × TagVal δ) e', secondLevel p e = some e' → e'.1 = e.1 := by
    intro e e' he
    unfold secondLevel at he
    split at he
    · rw [← Option.some.inj he]
    · nomatch he
  have hkept : findList sname (OrderedMap.ofList (elemTags v.elem_chain v.tstr)).entries =
      findList sname (elemTags v.elem_chain v.tstr) := OrderedMap.find?_ofList _ _
  rw [List.filterMap_append, findList_append, h.fresh hdot, Option.none_or,
    findList_qualified _ _ (secondLevel p) hkey (OrderedMap.sorted _), hkept,
    Option.bind_eq_some_iff]
  refine exists_congr fun kept => and_congr_right fun hfind => ?_
  obtain ⟨term, -, -, hterm⟩ := mem_elemTags.mp (mem_of_findList hfind)
  have hval : kept.val = tv.val :=
    Option.some.inj ((elemTag_spec hterm).1.symm.trans (elemTag_spec htag).1)
  rw [secondLevel, hval]
  split
  · rename_i hvalid
    exact ⟨fun _ => ⟨hvalid.2.1, hvalid.1, hvalid.2.2⟩, fun _ => rfl⟩
  · rename_i hvalid
    exact ⟨(nomatch ·), fun hk => absurd ⟨hk.2.1, hk.1, hk.2.2⟩ hvalid⟩

-- ---------------------------------------------------------------------------
-- Which annotations are indexed
-- ---------------------------------------------------------------------------

theorem termTag_of_suffix {object : Elem δ} {elem_chain : List (Text × Elem δ)}
    {term : Text × Text} {sname : Text} (h : term.2 = '.' :: sname) :
    termTag object elem_chain term = (elemTag elem_chain term.1 sname).map fun tv =>
      (dottedPath (levelNames elem_chain) ++ '.' :: sname, tv) := by
  obtain ⟨pterm, sterm⟩ := term
  subst h
  rfl

theorem isLocal_iff (name : Text) (l : List (Text × TagVal δ)) (attribs : Attribs δ) :
    (⟨name, OrderedMap.ofList l, attribs⟩ : StatNode δ).IsLocal ↔
      (∀ e ∈ attribs.entries, '.' ∉ e.1) ∧ ∀ e ∈ l, '.' ∉ e.1 := by
  constructor
  · rintro ⟨htags, hattribs⟩
    refine ⟨hattribs, fun e he => ?_⟩
    have hfind : ((OrderedMap.ofList l).find? e.1).isSome := by
      rw [OrderedMap.find?_ofList, findList_isSome_iff]
      exact ⟨e.2, he⟩
    obtain ⟨tv, htv⟩ := Option.isSome_iff_exists.mp hfind
    exact htags (e.1, tv) (OrderedMap.mem_entries.mpr htv)
  · rintro ⟨hattribs, hl⟩
    refine ⟨fun e he => ?_, hattribs⟩
    have hfind := OrderedMap.mem_entries.mp he
    rw [OrderedMap.find?_ofList] at hfind
    exact hl _ (mem_of_findList hfind)

theorem terms_indexed_iff {timestamp : Nat} {objectName source : Text} {object : Elem δ}
    {nkey : Var δ} {v : Visit δ}
    (hv : Visited timestamp objectName object (objectTags nkey source) v) {toptags : List Text}
    {tagmap : OrderedMap Text (TagVal δ)} (htop : ParseTopTags v.tstr = some toptags)
    (helem : ParseElemTags v.elem_chain v.tstr = some tagmap) :
    TermsIndexed object v toptags tagmap ↔ v.Indexes object := by
  have hsound := hv.sound
  obtain ⟨objectName', levels, last, hchain⟩ := hsound.chain
  have hlast : v.elem_chain.getLast? = some last := by
    rw [hchain, List.getLast?_cons, List.getLast?_concat]
    rfl
  obtain ⟨hterms, -⟩ := ParseTopTags_spec htop
  obtain ⟨hsome, htagmap⟩ := ParseElemTags_spec helem
  have hoffer := isInsert_pathInsert v.sw (v.path ++ [⟨last.1, tagmap, last.2.attribs⟩])
  -- what the one call of Push has under a name, and under a prefix and a name
  have hfirst : ∀ p, firstOf (pathInsert v.sw
      (v.path ++ [⟨last.1, tagmap, last.2.attribs⟩])).attribs_tag p = findList p v.offered := by
    intro p
    refine (hoffer.first p).trans ?_
    rw [hsound.pathTags_eq hlast, htagmap]
    rfl
  have hsecond : ∀ pterm sname tv, elemTag v.elem_chain pterm sname = some tv → '.' ∉ sname →
      ∀ p, (secondOf (pathInsert v.sw
        (v.path ++ [⟨last.1, tagmap, last.2.attribs⟩])).attribs_tag p
          (dottedPath (levelNames v.elem_chain) ++ '.' :: sname) = some tv.val ↔
        v.KeepsPrefix p sname tv.val) := by
    intro pterm sname tv htag hdot p
    rw [← hsound.second_iff htag hdot p]
    refine Eq.congr_left ((hoffer.second p _).trans ?_)
    rw [hsound.pathTags_eq hlast, htagmap]
  constructor
  · -- each term is entered by that call, so its tag is offered under its name
    rintro ⟨-, call, hcall, hall⟩
    obtain ⟨hlocal, rfl⟩ := (hsound.call_eq hlast helem).mp hcall
    rw [htagmap, isLocal_iff] at hlocal
    obtain ⟨hattribs, hsuffixes⟩ := hlocal
    refine ⟨fun last' hlast' => ?_, hsuffixes, fun term hterm ti hti hplain => ?_,
      fun term hterm sname hsname hprefix tv htv => ?_⟩
    · obtain rfl : last = last' := Option.some.inj (hlast.symm.trans hlast')
      exact hattribs
    · obtain ⟨ti', hti', hentered⟩ := hall term hterm
      obtain rfl : ti' = ti := Option.some.inj (hti'.symm.trans hti)
      rw [Entered, if_pos hplain, hfirst] at hentered
      exact hentered
    · obtain ⟨ti, hti, hentered⟩ := hall term hterm
      rw [termTag_of_suffix hsname, htv] at hti
      obtain rfl := Option.some.inj hti
      rw [Entered, if_neg hprefix, hfirst] at hentered
      have hdot : '.' ∉ sname := hsuffixes (sname, tv) (mem_elemTags.mpr ⟨term, hterm, hsname, htv⟩)
      exact ⟨hentered.1, (hsecond term.1 sname tv htv hdot _).mp hentered.2⟩
  · -- conversely the call is made, and every term is read off what is offered
    intro hindexes
    refine ⟨used_once htop helem, _, (hsound.call_eq hlast helem).mpr ⟨?_, rfl⟩, ?_⟩
    · rw [htagmap, isLocal_iff]
      exact ⟨hindexes.attribs last hlast, hindexes.suffixes⟩
    · intro term hterm
      -- a term without a prefix has the tag itself or a member of its own
      by_cases hplain : term.1 = []
      · have htag : (termTag object v.elem_chain term).isSome := by
          by_cases hdot : ∃ sname, term.2 = '.' :: sname
          · obtain ⟨sname, hsname⟩ := hdot
            rw [termTag_of_suffix hsname, Option.isSome_map]
            exact hsome term hterm sname hsname
          · unfold termTag
            split
            · rename_i sname hsname
              exact absurd ⟨sname, hsname⟩ hdot
            · rfl
        obtain ⟨ti, hti⟩ := Option.isSome_iff_exists.mp htag
        refine ⟨ti, hti, ?_⟩
        rw [Entered, if_pos hplain, hfirst]
        exact hindexes.plain term hterm ti hti hplain
      · -- behind a prefix there is a member, whose value is offered under both
        obtain ⟨sname, hsname⟩ : ∃ sname, term.2 = '.' :: sname := by
          obtain ⟨hne, htopterm⟩ := hterms term hterm
          have hhead : term.2.head? = some '.' := by
            by_contra hne'
            exact hplain (htopterm hne')
          exact List.head?_eq_some_iff.mp hhead
        obtain ⟨tv, htv⟩ := Option.isSome_iff_exists.mp (hsome term hterm sname hsname)
        obtain ⟨hname, hkeeps⟩ := hindexes.prefixed term hterm sname hsname hplain tv htv
        have hdot : '.' ∉ sname :=
          hindexes.suffixes (sname, tv) (mem_elemTags.mpr ⟨term, hterm, hsname, htv⟩)
        refine ⟨_, by rw [termTag_of_suffix hsname, htv]; rfl, ?_⟩
        rw [Entered, if_neg hplain, hfirst]
        exact ⟨hname, (hsecond term.1 sname tv htv hdot _).mpr hkeeps⟩

/-- An object with two attributes and a struct that has one. -/
def tagObject (tstr : Text) : Elem Nat :=
  .struct [("a".toList, .STRING "1".toList, none), ("b".toList, .STRING "2".toList, none),
    ("e".toList, .INVALID, some (tstr, [.struct [("x".toList, .STRING "y".toList, none)] []]))] []

def tagVisit (tstr : Text) (toptags : List Text) : Visit Nat :=
  ⟨.new 0 "Uve".toList (topTagMap (tagObject tstr) (objectTags (.STRING "u".toList) []) toptags),
    [("Uve".toList, tagObject tstr),
      ("e".toList, .struct [("x".toList, .STRING "y".toList, none)] [])], tstr, []⟩

theorem visited_tagVisit {tstr : Text} {toptags : List Text}
    (htop : ParseTopTags tstr = some toptags) :
    Visited 0 "Uve".toList (tagObject tstr) (objectTags (.STRING "u".toList) [])
      (tagVisit tstr toptags) := by
  have hchild : ("e".toList, Var.INVALID, some (tstr, [Elem.struct [("x".toList,
      Var.STRING "y".toList, none)] []])) ∈ (tagObject tstr).children :=
    List.mem_cons_of_mem _ (List.mem_cons_of_mem _ List.mem_cons_self)
  exact .top hchild (by decide) List.mem_cons_self htop

/-- A top-level name, and a suffix that comes twice with one prefix. -/
def sampleTags : Text := "a,b:.x,b:.x".toList

theorem indexes_sampleTags :
    (tagVisit sampleTags ["a".toList]).Indexes (tagObject sampleTags) := by
  have hterms : terms sampleTags =
      [([], "a".toList), ("b".toList, ".x".toList), ("b".toList, ".x".toList)] := by
    decide +kernel
  refine ⟨fun last hlast => ?_, by decide +kernel, fun term hterm ti hti hplain => ?_,
    fun term hterm sname hsname hprefix tv htv => ?_⟩
  · obtain rfl := Option.some.inj (hlast.symm.trans rfl)
    decide
  · replace hterm : term ∈ terms sampleTags := hterm
    rw [hterms, List.mem_cons, List.mem_cons, List.mem_singleton] at hterm
    rcases hterm with rfl | rfl | rfl
    · obtain rfl := Option.some.inj (hti.symm.trans rfl)
      rfl
    · exact absurd hplain (by decide)
    · exact absurd hplain (by decide)
  · replace hterm : term ∈ terms sampleTags := hterm
    rw [hterms, List.mem_cons, List.mem_cons, List.mem_singleton] at hterm
    have hprefixed : ("b".toList, ".x".toList) = term := by
      rcases hterm with rfl | rfl | rfl
      · exact absurd rfl hprefix
      · rfl
      · rfl
    obtain rfl := hprefixed
    obtain rfl := (List.cons.inj hsname).2
    obtain rfl := Option.some.inj (htv.symm.trans rfl)
    exact ⟨rfl, _, rfl, rfl, rfl, rfl⟩

theorem terms_indexed_sample : ∃ tagmap,
    ParseElemTags (tagVisit sampleTags ["a".toList]).elem_chain sampleTags = some tagmap ∧
      TermsIndexed (tagObject sampleTags) (tagVisit sampleTags ["a".toList]) ["a".toList] tagmap :=
  ⟨_, rfl, (terms_indexed_iff (visited_tagVisit rfl) rfl rfl).mpr indexes_sampleTags⟩

/-- Of two terms with one suffix the second is lost. -/
theorem not_terms_indexed :
    ¬ ∀ (object : Elem Nat) (nkey : Var Nat) (v : Visit Nat) (toptags : List Text)
      (tagmap : OrderedMap Text (TagVal Nat)),
      Visited 0 "Uve".toList object (objectTags nkey []) v → ParseTopTags v.tstr = some toptags →
      ParseElemTags v.elem_chain v.tstr = some tagmap → TermsIndexed object v toptags tagmap := by
  intro h
  obtain ⟨-, call, hcall, hall⟩ :=
    h _ _ (tagVisit "a:.x,b:.x".toList []) [] _ (visited_tagVisit rfl) rfl rfl
  obtain rfl := Option.some.inj (hcall.symm.trans rfl)
  obtain ⟨ti, hti, hentered⟩ := hall ("b".toList, ".x".toList) (by decide)
  obtain rfl := Option.some.inj (hti.symm.trans rfl)
  have hsecond := congrArg Option.isSome (And.right hentered)
  exact absurd hsecond (by decide +kernel)

end TfAnalytics.Collector
