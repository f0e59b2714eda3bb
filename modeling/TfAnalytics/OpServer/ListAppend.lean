import Mathlib
import TfAnalytics.Lib.Dict
import TfAnalytics.Lib.FirstBy
import TfAnalytics.Lib.OrderedMap
import TfAnalytics.OpServer.UveValues

/-!
# Analytics API — append lists

`ParallelAggregator` (uveserver.py) joins the sources of an attribute. Lists with the
annotation `append` are put one behind the other (`_append_agg`); where their elements have
a member that is annotated as the list's key, the elements with the same key become one,
with the integers added up (`consolidate_list`).

* `consolidateItems_isSome_iff`: when the consolidation gets through;
* `append_sums_per_key`: what it gives for elements with the same members, and what the
  order of the sources changes.
-/

namespace TfAnalytics.OpServer

open TfAnalytics.Lib

/-- The sources of an attribute, in the order of the dictionary; there is one at least. -/
structure OAttr where
  first : String × AttrValue
  rest : List (String × AttrValue)

def OAttr.sources (oattr : OAttr) : List (String × AttrValue) := oattr.first :: oattr.rest

-- ---------------------------------------------------------------------------
-- _append_agg
-- ---------------------------------------------------------------------------

/-- `attr['list']`'s elements. -/
def AttrValue.items : AttrValue → Option (List Elem)
  | .list _ _ _ items => some items
  | .basic .. | .struct .. | .textMap .. | .structMap .. => none

/-- `get_list_name`: a list without elements has no name. -/
def get_list_name : AttrValue → Option String
  | .list _ name _ items => some (if items.isEmpty then "" else name)
  | .basic .. | .struct .. | .textMap .. | .structMap .. => none

/-- `attr['list'][sname]`. -/
def listItems (sname : String) : AttrValue → Option (List Elem)
  | .list _ name _ items => if items ≠ [] ∧ name = sname then some items else none
  | .basic .. | .struct .. | .textMap .. | .structMap .. => none

def _append_agg (oattr : OAttr) : Option AttrValue := do
  let sname ← get_list_name oattr.first.2
  let lists ← oattr.sources.mapM fun source => listItems sname source.2
  let siz := lists.flatten.length
  some (.list oattr.first.2.aggtype sname (toString siz) lists.flatten)

-- ---------------------------------------------------------------------------
-- consolidate_list
-- ---------------------------------------------------------------------------

/-- The members of an element that is a struct. -/
def Elem.members : Elem → Option Members
  | .text _ | .struct [] => none
  | .struct (m :: members) => some (m :: members)

/-- `_get_list_key`: the last member that is annotated as the key. -/
def _get_list_key (elem : Members) : String :=
  elem.foldl (fun skey m => if m.2.aggtype = some .listkey then m.1 else skey) ""

/-- `_list_agg_attrs`: the integers, except the key. -/
def _list_agg_attrs (item : Members) : List String :=
  (item.filter fun m => m.2.aggtype ≠ some .listkey ∧ m.2.isCounter).map Prod.fst

/-- `item[name]['#text']`. -/
def memberText (item : Members) (name : String) : Option String :=
  (item.lookup name).bind AttrValue.text

variable (B : Builtins)

/-- `int(item[name]['#text'])`. -/
def memberInt (item : Members) (name : String) : Option Int := (memberText item name).bind B.int

/-- An element of the result while it is built: the copy of an element, and the integers that
stand in the place of its texts. -/
structure ResItem where
  item : Members
  counts : List (String × Int)

/-- `res_items[name]['#text']`, a text or an integer. -/
def ResItem.text (res : ResItem) (name : String) : Option (String ⊕ Int) :=
  match res.counts.lookup name with
  | some n => some (.inr n)
  | none => (memberText res.item name).map .inl

/-- `res_items[ctrs]['#text'] += int(items[ctrs]['#text'])`. -/
def addCount (items : Members) (res : ResItem) (ctrs : String) : Option ResItem := do
  let n ← memberInt B items ctrs
  if (res.counts.lookup ctrs).isSome then
    some { res with counts := res.counts.map fun c => if c.1 = ctrs then (c.1, c.2 + n) else c }
  else none

/-- An element of the result, and whether it has the key of `items`: then it is added to. -/
def matchItem (appkey : String) (items : Members) (res : ResItem) : Option (ResItem × Bool) := do
  let key ← memberText items appkey
  let resKey ← res.text appkey
  if resKey = .inl key then
    let added ← (_list_agg_attrs items).foldlM (addCount B items) res
    some (added, true)
  else some (res, false)

/-- `newitem`. -/
def newItem (items : Members) : Option ResItem := do
  let counts ← (_list_agg_attrs items).mapM fun ctrs => do
    let n ← memberInt B items ctrs
    some (ctrs, n)
  some ⟨items, counts⟩

/-- The loop's body: the elements of the result and `res_size`. -/
def consolidateStep (appkey : String) (acc : List ResItem × Nat) (items : Members) :
    Option (List ResItem × Nat) := do
  let matched ← acc.1.mapM (matchItem B appkey items)
  if matched.any Prod.snd then some (matched.map Prod.fst, acc.2)
  else
    let newitem ← newItem B items
    some (acc.1 ++ [newitem], acc.2 + 1)

/-- The result is read as a text. -/
def AttrValue.withText (s : String) : AttrValue → AttrValue
  | .basic aggtype t _ => .basic aggtype t (some s)
  | v => v

/-- The integers become texts again. -/
def ResItem.toMembers (res : ResItem) : Members :=
  res.item.map fun m =>
    match res.counts.lookup m.1 with
    | some n => (m.1, m.2.withText (toString n))
    | none => m

/-- All elements and the texts again. An element that is not a struct has no members. -/
def consolidateItems (appkey : String) (elems : List Elem) : Option (List Members × Nat) := do
  let items ← elems.mapM Elem.members
  let acc ← items.foldlM (consolidateStep B appkey) ([], 0)
  some (acc.1.map ResItem.toMembers, acc.2)

/-- `consolidate_list`; without a key it returns its argument `result`, the whole result of
the aggregation so far. -/
inductive Consolidated
  | whole
  | list (v : AttrValue)

def consolidate_list (attr : AttrValue) : Option Consolidated := do
  let applist ← get_list_name attr
  let elems ← listItems applist attr
  let first ← elems.head?.bind Elem.members
  let appkey := _get_list_key first
  if appkey = "" then some .whole
  else
    let res ← consolidateItems B appkey elems
    some (.list (.list attr.aggtype applist (toString res.2) (res.1.map .struct)))

-- ---------------------------------------------------------------------------
-- One element of the result
-- ---------------------------------------------------------------------------

/-- The integers of the element are texts that `int` reads. -/
def CountsRead (e : Members) : Prop := ∀ c ∈ _list_agg_attrs e, (memberInt B e c).isSome

/-- The integer, where there is one. -/
def memberCount (e : Members) (c : String) : Int := (memberInt B e c).getD 0

/-- An addition that gets through. -/
def ResItem.plus (items : Members) (res : ResItem) (ctrs : String) : ResItem :=
  { res with counts := res.counts.map fun c =>
      if c.1 = ctrs then (c.1, c.2 + memberCount B items ctrs) else c }

/-- The additions of all integers of `items`. -/
def ResItem.plusAll (items : Members) (res : ResItem) : ResItem :=
  (_list_agg_attrs items).foldl (ResItem.plus B items) res

/-- The copy of an element. -/
def ResItem.copy (items : Members) : ResItem :=
  ⟨items, (_list_agg_attrs items).map fun c => (c, memberCount B items c)⟩

/-- The integers of an element of the result are those of the element it copies. -/
structure ResItem.Copies (res : ResItem) : Prop where
  counts : res.counts.map Prod.fst = _list_agg_attrs res.item
  read : CountsRead B res.item

variable {B} {appkey : String}

theorem names_plus (items : Members) (res : ResItem) (ctrs : String) :
    (res.plus B items ctrs).counts.map Prod.fst = res.counts.map Prod.fst := by
  rw [ResItem.plus, List.map_map]
  refine List.map_congr_left fun c _ => ?_
  show (if c.1 = ctrs then (c.1, _) else c).1 = c.1
  split <;> rfl

/-- Additions change neither the copy nor which integers it has. -/
theorem foldl_plus (items : Members) (cs : List String) (res : ResItem) :
    (cs.foldl (ResItem.plus B items) res).item = res.item ∧
      (cs.foldl (ResItem.plus B items) res).counts.map Prod.fst = res.counts.map Prod.fst := by
  induction cs generalizing res with
  | nil => exact ⟨rfl, rfl⟩
  | cons c cs ih =>
    obtain ⟨hitem, hnames⟩ := ih (res.plus B items c)
    exact ⟨hitem, hnames.trans (names_plus items res c)⟩

theorem plusAll_item (items : Members) (res : ResItem) : (res.plusAll B items).item = res.item :=
  (foldl_plus items _ res).1

theorem addCount_eq (items : Members) (res : ResItem) (ctrs : String) :
    addCount B items res ctrs =
      if (memberInt B items ctrs).isSome ∧ ctrs ∈ res.counts.map Prod.fst
      then some (res.plus B items ctrs) else none := by
  unfold addCount
  cases hint : memberInt B items ctrs with
  | none => simp
  | some n =>
    by_cases hmem : ctrs ∈ res.counts.map Prod.fst
    · rw [if_pos ⟨rfl, hmem⟩]
      simp [lookup_isSome_iff_mem.mpr hmem, ResItem.plus, memberCount, hint]
    · rw [if_neg fun h => hmem h.2]
      simp [mt lookup_isSome_iff_mem.mp hmem]

/-- The additions get through when every integer is read and is one of the copy's. -/
theorem foldlM_addCount (items : Members) (cs : List String) (res : ResItem) :
    cs.foldlM (addCount B items) res =
      if ∀ c ∈ cs, (memberInt B items c).isSome ∧ c ∈ res.counts.map Prod.fst
      then some (cs.foldl (ResItem.plus B items) res) else none := by
  induction cs generalizing res with
  | nil => simp
  | cons c cs ih =>
    rw [List.foldlM_cons, addCount_eq]
    by_cases hc : (memberInt B items c).isSome ∧ c ∈ res.counts.map Prod.fst
    · rw [if_pos hc, Option.bind_eq_bind, Option.bind_some, ih, names_plus]
      simp only [List.forall_mem_cons, hc, true_and, and_self, List.foldl_cons]
    · rw [if_neg hc, if_neg fun h => hc (h c List.mem_cons_self)]
      rfl

/-- The result's element `r` has the key of `e`: it is a text there too. -/
def sameKey (appkey : String) (r e : Members) : Bool :=
  appkey ∉ _list_agg_attrs r ∧ memberText r appkey = memberText e appkey

theorem ResItem.Copies.text {res : ResItem} (h : res.Copies B) {key : String} :
    res.text appkey = some (.inl key) ↔
      appkey ∉ _list_agg_attrs res.item ∧ memberText res.item appkey = some key := by
  unfold ResItem.text
  rw [← h.counts]
  cases hlookup : res.counts.lookup appkey with
  | none =>
    have hnot : appkey ∉ res.counts.map Prod.fst := by
      rw [← lookup_isSome_iff_mem, hlookup]
      simp
    simp [hnot]
  | some n =>
    have hmem : appkey ∈ res.counts.map Prod.fst :=
      lookup_isSome_iff_mem.mp (by rw [hlookup]; rfl)
    simp [hmem]

theorem ResItem.Copies.text_isSome {res : ResItem} (h : res.Copies B) :
    (res.text appkey).isSome ↔ (memberText res.item appkey).isSome := by
  unfold ResItem.text
  cases hlookup : res.counts.lookup appkey with
  | none => simp
  | some n =>
    have hmem : appkey ∈ _list_agg_attrs res.item :=
      h.counts ▸ lookup_isSome_iff_mem.mp (by rw [hlookup]; rfl)
    have hread := h.read appkey hmem
    rw [memberInt] at hread
    have htext : (memberText res.item appkey).isSome := by
      cases hnone : memberText res.item appkey with
      | none => simp [hnone] at hread
      | some s => rfl
    simp [htext]

/-- What `items` needs of an element of the result. -/
def MatchOk (B : Builtins) (appkey : String) (r items : Members) : Prop :=
  (memberText items appkey).isSome ∧ (memberText r appkey).isSome ∧
    (sameKey appkey r items = true →
      CountsRead B items ∧ _list_agg_attrs items ⊆ _list_agg_attrs r)

theorem matchItem_eq {items : Members} {res : ResItem} (h : res.Copies B) :
    (MatchOk B appkey res.item items → matchItem B appkey items res =
      some (if sameKey appkey res.item items then res.plusAll B items else res,
        sameKey appkey res.item items)) ∧
    (¬ MatchOk B appkey res.item items → matchItem B appkey items res = none) := by
  unfold matchItem
  cases hkey : memberText items appkey with
  | none =>
    refine ⟨fun hok => ?_, fun _ => rfl⟩
    have := hok.1
    simp [hkey] at this
  | some key =>
    cases hres : res.text appkey with
    | none =>
      refine ⟨fun hok => ?_, fun _ => rfl⟩
      have := h.text_isSome.mpr hok.2.1
      simp [hres] at this
    | some resKey =>
      have hsome : (memberText res.item appkey).isSome := h.text_isSome.mp (by rw [hres]; rfl)
      have hsame : resKey = .inl key ↔ sameKey appkey res.item items = true := by
        have htext : res.text appkey = some (.inl key) ↔ _ := h.text
        rw [hres, Option.some.injEq] at htext
        simp only [htext, sameKey, hkey, decide_eq_true_eq]
      simp only [Option.bind_eq_bind, Option.bind_some]
      by_cases heq : sameKey appkey res.item items = true
      · rw [if_pos (hsame.mpr heq), foldlM_addCount, h.counts]
        have hcond : (∀ c ∈ _list_agg_attrs items,
            (memberInt B items c).isSome ∧ c ∈ _list_agg_attrs res.item) ↔
            MatchOk B appkey res.item items := by
          refine ⟨fun hall => ⟨by rw [hkey]; rfl, hsome, fun _ =>
            ⟨fun c hc => (hall c hc).1, fun c hc => (hall c hc).2⟩⟩, fun hok c hc => ?_⟩
          exact ⟨(hok.2.2 heq).1 c hc, (hok.2.2 heq).2 hc⟩
        by_cases hok : MatchOk B appkey res.item items
        · rw [if_pos (hcond.mpr hok)]
          exact ⟨fun _ => by simp [heq, ResItem.plusAll], fun hnot => absurd hok hnot⟩
        · rw [if_neg (mt hcond.mp hok)]
          exact ⟨fun h' => absurd h' hok, fun _ => rfl⟩
      · rw [if_neg (mt hsame.mp heq)]
        refine ⟨fun _ => by simp [heq], fun hnot => absurd ?_ hnot⟩
        exact ⟨by rw [hkey]; rfl, hsome, fun h' => absurd h' heq⟩

-- ---------------------------------------------------------------------------
-- One step of the consolidation
-- ---------------------------------------------------------------------------

theorem newItem_eq (items : Members) :
    (CountsRead B items → newItem B items = some (.copy B items)) ∧
      (¬ CountsRead B items → newItem B items = none) := by
  unfold newItem
  constructor
  · intro hread
    rw [mapM_eq_some_map (g := fun c => (c, memberCount B items c))]
    · rfl
    · intro c hc
      obtain ⟨n, hn⟩ := Option.isSome_iff_exists.mp (hread c hc)
      simp [memberCount, hn]
  · intro hnot
    obtain ⟨c, hc, hnone⟩ : ∃ c ∈ _list_agg_attrs items, memberInt B items c = none := by
      simpa [CountsRead] using hnot
    rw [mapM_eq_none hc (by rw [hnone]; rfl)]
    rfl

theorem copies_copy {items : Members} (h : CountsRead B items) :
    (ResItem.copy B items).Copies B where
  counts := by
    rw [ResItem.copy, List.map_map]
    exact List.map_id _
  read := h

theorem copies_plusAll {res : ResItem} (h : res.Copies B) (items : Members) :
    (res.plusAll B items).Copies B where
  counts := by rw [plusAll_item, ResItem.plusAll, (foldl_plus items _ res).2, h.counts]
  read := by rw [plusAll_item]; exact h.read

/-- What an element needs after the elements `kept` of the result: its integers are read; the
keys that are compared are there; and an element with the same key has the integers. -/
structure StepOk (B : Builtins) (appkey : String) (kept : List Members) (e : Members) : Prop where
  read : CountsRead B e
  keyed : ∀ r ∈ kept, (memberText e appkey).isSome ∧ (memberText r appkey).isSome
  carried : ∀ r ∈ kept, sameKey appkey r e = true → _list_agg_attrs e ⊆ _list_agg_attrs r

/-- A step that gets through. -/
def consolidated (B : Builtins) (appkey : String) (acc : List ResItem × Nat) (items : Members) :
    List ResItem × Nat :=
  if acc.1.any fun res => sameKey appkey res.item items then
    (acc.1.map fun res => if sameKey appkey res.item items then res.plusAll B items else res, acc.2)
  else (acc.1 ++ [.copy B items], acc.2 + 1)

theorem stepOk_iff {kept : List Members} {e : Members} :
    StepOk B appkey kept e ↔ (∀ r ∈ kept, MatchOk B appkey r e) ∧ CountsRead B e :=
  ⟨fun h => ⟨fun r hr => ⟨(h.keyed r hr).1, (h.keyed r hr).2,
      fun hsame => ⟨h.read, h.carried r hr hsame⟩⟩, h.read⟩,
    fun h => ⟨h.2, fun r hr => ⟨(h.1 r hr).1, (h.1 r hr).2.1⟩,
      fun r hr hsame => ((h.1 r hr).2.2 hsame).2⟩⟩

theorem consolidateStep_eq {acc : List ResItem × Nat} (hcopies : ∀ res ∈ acc.1, res.Copies B)
    (items : Members) :
    (StepOk B appkey (acc.1.map ResItem.item) items →
      consolidateStep B appkey acc items = some (consolidated B appkey acc items)) ∧
    (¬ StepOk B appkey (acc.1.map ResItem.item) items →
      consolidateStep B appkey acc items = none) := by
  unfold consolidateStep
  by_cases hall : ∀ res ∈ acc.1, MatchOk B appkey res.item items
  · have hmatched := mapM_eq_some_map fun res hres =>
      (matchItem_eq (hcopies res hres)).1 (hall res hres)
    rw [hmatched, Option.bind_eq_bind, Option.bind_some, List.any_map, List.map_map]
    have hiff : StepOk B appkey (acc.1.map ResItem.item) items ↔ CountsRead B items := by
      rw [stepOk_iff, List.forall_mem_map]
      exact and_iff_right hall
    rw [hiff, consolidated]
    by_cases hany : acc.1.any (fun res => sameKey appkey res.item items) = true
    · -- An element with the key has read the integers.
      obtain ⟨res, hres, hsame⟩ := List.any_eq_true.mp hany
      have hread := ((hall res hres).2.2 hsame).1
      refine ⟨fun _ => ?_, fun hnot => absurd hread hnot⟩
      rw [if_pos hany]
      exact if_pos hany
    · rw [if_neg hany]
      refine ⟨fun hread => ?_, fun hnot => ?_⟩
      · rw [(newItem_eq items).1 hread]
        exact if_neg hany
      · rw [(newItem_eq items).2 hnot]
        exact if_neg hany
  · obtain ⟨res, hres, hnot⟩ : ∃ res ∈ acc.1, ¬ MatchOk B appkey res.item items := by
      simpa using hall
    rw [mapM_eq_none hres ((matchItem_eq (hcopies res hres)).2 hnot)]
    refine ⟨fun h => absurd ((stepOk_iff.mp h).1 res.item (List.mem_map_of_mem hres)) hnot,
      fun _ => rfl⟩

/-- What the consolidation keeps: the result copies the first element of each key. -/
structure Consolidating (B : Builtins) (appkey : String) (seen : List Members)
    (acc : List ResItem × Nat) : Prop where
  items : acc.1.map ResItem.item = firstBy (sameKey appkey) seen
  size : acc.2 = acc.1.length
  copies : ∀ res ∈ acc.1, res.Copies B

theorem consolidating_consolidated {seen : List Members} {acc : List ResItem × Nat}
    (h : Consolidating B appkey seen acc) {items : Members} (hread : CountsRead B items) :
    Consolidating B appkey (seen ++ [items]) (consolidated B appkey acc items) := by
  have hany : (acc.1.any fun res => sameKey appkey res.item items) =
      (firstBy (sameKey appkey) seen).any (sameKey appkey · items) := by
    rw [← h.items, List.any_map]
    rfl
  rw [consolidated, hany]
  split
  · rename_i hsame
    refine ⟨?_, by simpa using h.size, ?_⟩
    · rw [firstBy_snoc, keepFirst, if_pos hsame, ← h.items, List.map_map]
      refine List.map_congr_left fun res _ => ?_
      show (if _ then res.plusAll B items else res).item = res.item
      split
      · exact plusAll_item items res
      · rfl
    · rw [List.forall_mem_map]
      intro res hres
      split
      · exact copies_plusAll (h.copies res hres) items
      · exact h.copies res hres
  · rename_i hsame
    refine ⟨?_, by simp [h.size], ?_⟩
    · rw [firstBy_snoc, keepFirst, if_neg hsame, ← h.items, List.map_append]
      rfl
    · intro res hres
      rcases List.mem_append.mp hres with hres | hres
      · exact h.copies res hres
      · rw [List.mem_singleton.mp hres]
        exact copies_copy hread

theorem consolidateStep_isSome_iff {seen : List Members} {acc : List ResItem × Nat}
    (h : Consolidating B appkey seen acc) (e : Members) :
    (consolidateStep B appkey acc e).isSome ↔
      StepOk B appkey (firstBy (sameKey appkey) seen) e := by
  rw [← h.items]
  by_cases hok : StepOk B appkey (acc.1.map ResItem.item) e
  · simp [(consolidateStep_eq h.copies e).1 hok, hok]
  · simp [(consolidateStep_eq h.copies e).2 hok, hok]

theorem consolidateStep_eq_some {seen : List Members} {acc acc' : List ResItem × Nat}
    (h : Consolidating B appkey seen acc) {e : Members}
    (hstep : consolidateStep B appkey acc e = some acc') :
    consolidated B appkey acc e = acc' ∧ CountsRead B e := by
  by_cases hok : StepOk B appkey (acc.1.map ResItem.item) e
  · rw [(consolidateStep_eq h.copies e).1 hok] at hstep
    exact ⟨Option.some.inj hstep, hok.read⟩
  · rw [(consolidateStep_eq h.copies e).2 hok] at hstep
    cases hstep

theorem consolidating_nil : Consolidating B appkey [] ([], 0) := ⟨rfl, rfl, by simp⟩

/-- When all the steps get through. -/
def Consolidates (B : Builtins) (appkey : String) (items : List Members) : Prop :=
  ∀ pre e post, items = pre ++ e :: post → StepOk B appkey (firstBy (sameKey appkey) pre) e

theorem foldlM_consolidateStep (items : List Members) :
    ((items.foldlM (consolidateStep B appkey) ([], 0)).isSome ↔ Consolidates B appkey items) ∧
      ∀ acc, items.foldlM (consolidateStep B appkey) ([], 0) = some acc →
        Consolidating B appkey items acc := by
  refine foldlM_isSome_iff (P := Consolidating B appkey)
    (Q := fun seen e => StepOk B appkey (firstBy (sameKey appkey) seen) e)
    ?_ ?_ items [] ([], 0) consolidating_nil
  · exact fun seen acc e h => consolidateStep_isSome_iff h e
  · intro seen acc e acc' h hstep
    obtain ⟨rfl, hread⟩ := consolidateStep_eq_some h hstep
    exact consolidating_consolidated h hread

-- ---------------------------------------------------------------------------
-- Elements with the same members
-- ---------------------------------------------------------------------------

/-- The type and the annotation of a member. -/
def memberKind (e : Members) (name : String) : Option (AttrType × Option AggType) :=
  (e.lookup name).map fun v => (v.type, v.aggtype)

/-- Members of this kind are added up. -/
def summed (kind : Option (AttrType × Option AggType)) : Bool :=
  match kind with
  | some (.basic t, aggtype) => t.isCounter && aggtype ≠ some .listkey
  | _ => false

/-- An element with the members `kinds`: a dictionary, with a text for the key, and with
integers that are read. -/
structure HasKinds (B : Builtins) (kinds : String → Option (AttrType × Option AggType))
    (key : String) (e : Members) : Prop where
  nodup : (e.map Prod.fst).Nodup
  kind : memberKind e = kinds
  keyText : (memberText e key).isSome
  read : CountsRead B e

/-- The sum of a member over the elements with a key. -/
def total (B : Builtins) (key : String) (elems : List Members) (t : Option String) (c : String) :
    Int :=
  ((elems.filter fun e => memberText e key = t).map (memberCount B · c)).sum

/-- Which members are added up is a matter of the kinds. -/
theorem mem_list_agg_attrs {e : Members} (h : (e.map Prod.fst).Nodup) {name : String} :
    name ∈ _list_agg_attrs e ↔ summed (memberKind e name) = true := by
  have hmem : name ∈ _list_agg_attrs e ↔ ∃ v, e.lookup name = some v ∧
      v.aggtype ≠ some .listkey ∧ v.isCounter = true := by
    simp only [_list_agg_attrs, List.mem_map, List.mem_filter, decide_eq_true_eq]
    constructor
    · rintro ⟨m, ⟨hm, hagg⟩, rfl⟩
      exact ⟨m.2, (mem_iff_lookup h).mp hm, hagg⟩
    · rintro ⟨v, hv, hagg⟩
      exact ⟨(name, v), ⟨(mem_iff_lookup h).mpr hv, hagg⟩, rfl⟩
  rw [hmem, memberKind]
  cases e.lookup name with
  | none => simp [summed]
  | some v =>
    cases v <;>
      simp [summed, AttrValue.isCounter, AttrValue.type, AttrValue.aggtype, and_comm]

theorem nodup_list_agg_attrs {e : Members} (h : (e.map Prod.fst).Nodup) :
    (_list_agg_attrs e).Nodup :=
  h.sublist (List.filter_sublist.map _)

variable {kinds : String → Option (AttrType × Option AggType)} {key : String}

theorem HasKinds.mem_agg {e : Members} (h : HasKinds B kinds key e) {name : String} :
    name ∈ _list_agg_attrs e ↔ summed (kinds name) = true := by
  rw [mem_list_agg_attrs h.nodup, h.kind]

theorem foldl_plus_counts (items : Members) {cs : List String} (hcs : cs.Nodup) (res : ResItem) :
    (cs.foldl (ResItem.plus B items) res).counts =
      res.counts.map fun c => (c.1, c.2 + if c.1 ∈ cs then memberCount B items c.1 else 0) := by
  induction cs generalizing res with
  | nil => simp
  | cons c cs ih =>
    rw [List.nodup_cons] at hcs
    rw [List.foldl_cons, ih hcs.2, ResItem.plus, List.map_map]
    refine List.map_congr_left fun d _ => ?_
    show ((if d.1 = c then (d.1, _) else d).1, _) = _
    by_cases hd : d.1 = c
    · simp [hd, hcs.1]
    · simp [hd]

theorem lookup_map_snd (g : String → AttrValue → AttrValue) (e : Members) (name : String) :
    (e.map fun m => (m.1, g m.1 m.2)).lookup name = (e.lookup name).map (g name) := by
  induction e with
  | nil => rfl
  | cons m rest ih =>
    rw [List.map_cons, List.lookup_cons, List.lookup_cons, ih]
    by_cases hm : name = m.1
    · subst hm
      simp
    · rw [beq_eq_false_iff_ne.mpr hm]

theorem lookup_counts (cs : List String) (f : String → Int) (name : String) :
    (cs.map fun c => (c, f c)).lookup name = if name ∈ cs then some (f name) else none := by
  induction cs with
  | nil => rfl
  | cons c cs ih =>
    rw [List.map_cons, List.lookup_cons, ih]
    by_cases hc : name = c
    · simp [hc]
    · rw [beq_eq_false_iff_ne.mpr hc]
      simp [hc]

theorem lookup_toMembers {res : ResItem} {f : String → Int}
    (h : res.counts = (_list_agg_attrs res.item).map fun c => (c, f c)) (name : String) :
    res.toMembers.lookup name = (res.item.lookup name).map fun v =>
      if name ∈ _list_agg_attrs res.item then v.withText (toString (f name)) else v := by
  have hform : res.toMembers = res.item.map fun m =>
      (m.1, if m.1 ∈ _list_agg_attrs res.item then m.2.withText (toString (f m.1)) else m.2) := by
    refine List.map_congr_left fun m _ => ?_
    rw [h, lookup_counts]
    split_ifs <;> rfl
  rw [hform]
  exact lookup_map_snd (fun k v => if k ∈ _list_agg_attrs res.item
    then v.withText (toString (f k)) else v) res.item name

/-- What the consolidation keeps when the elements have the same members: the integers are the
sums over the elements that were seen. -/
def Summed (B : Builtins) (key : String) (seen : List Members) (acc : List ResItem × Nat) : Prop :=
  ∀ res ∈ acc.1, res.counts =
    (_list_agg_attrs res.item).map fun c => (c, total B key seen (memberText res.item key) c)

theorem total_snoc (elems : List Members) (e : Members) (t : Option String) (c : String) :
    total B key (elems ++ [e]) t c =
      total B key elems t c + if memberText e key = t then memberCount B e c else 0 := by
  rw [total, List.filter_append, List.map_append, List.sum_append, ← total]
  by_cases ht : memberText e key = t <;> simp [ht]

theorem total_eq_zero {elems : List Members} {t : Option String}
    (h : ∀ e ∈ elems, memberText e key ≠ t) (c : String) : total B key elems t c = 0 := by
  have hnone : elems.filter (fun e => memberText e key = t) = [] :=
    List.filter_eq_nil_iff.mpr fun e he => by simpa using h e he
  rw [total, hnone]
  rfl

theorem total_perm {elems elems' : List Members} (h : elems.Perm elems') (t : Option String)
    (c : String) : total B key elems t c = total B key elems' t c :=
  ((h.filter _).map _).sum_eq

variable (hkey : summed (kinds key) = false)
include hkey

/-- The key is a text in every element. -/
theorem sameKey_iff {r e : Members} (hr : HasKinds B kinds key r) :
    sameKey key r e = true ↔ memberText r key = memberText e key := by
  have hnot : key ∉ _list_agg_attrs r := by
    rw [hr.mem_agg, hkey]
    exact Bool.false_ne_true
  rw [sameKey, decide_eq_true_eq]
  exact and_iff_right hnot

theorem summed_consolidated {seen : List Members} {acc : List ResItem × Nat} {e : Members}
    (hseen : ∀ e' ∈ seen, HasKinds B kinds key e') (he : HasKinds B kinds key e)
    (h : Consolidating B key seen acc) (hsum : Summed B key seen acc) :
    Summed B key (seen ++ [e]) (consolidated B key acc e) := by
  have hitem : ∀ res ∈ acc.1, HasKinds B kinds key res.item := by
    intro res hres
    have hmem : res.item ∈ firstBy (sameKey key) seen := h.items ▸ List.mem_map_of_mem hres
    exact hseen _ (mem_of_mem_firstBy hmem)
  intro res hres
  rw [consolidated] at hres
  split at hres
  · obtain ⟨res, hold, rfl⟩ := List.mem_map.mp hres
    have hrk := hitem res hold
    by_cases hsame : sameKey key res.item e = true
    · -- The counts grow by those of the element.
      rw [if_pos hsame, plusAll_item, ResItem.plusAll,
        foldl_plus_counts e (nodup_list_agg_attrs he.nodup), hsum res hold, List.map_map]
      refine List.map_congr_left fun c hc => ?_
      have hce : c ∈ _list_agg_attrs e := he.mem_agg.mpr (hrk.mem_agg.mp hc)
      show (c, _ + if c ∈ _list_agg_attrs e then _ else 0) = (c, _)
      rw [if_pos hce, total_snoc, if_pos ((sameKey_iff hkey hrk).mp hsame).symm]
    · rw [if_neg hsame, hsum res hold]
      refine List.map_congr_left fun c _ => ?_
      rw [total_snoc, if_neg fun heq => hsame ((sameKey_iff hkey hrk).mpr heq.symm), add_zero]
  · rename_i hany
    -- No element that was seen has the key of the new one.
    have hnew : ∀ e' ∈ seen, memberText e' key ≠ memberText e key := by
      intro e' he' heq
      have hagree : firstBy (sameKey key) seen =
          firstBy (fun r e => decide (memberText r key = memberText e key)) seen :=
        firstBy_congr fun r hr a _ => by
          rw [Bool.eq_iff_iff, sameKey_iff hkey (hseen r hr), decide_eq_true_eq]
      obtain ⟨r, hr, hkeys⟩ := exists_firstBy_key (memberText · key)
        (fun _ _ => decide_eq_true_iff) he'
      rw [← hagree, ← h.items] at hr
      obtain ⟨res', hres', rfl⟩ := List.mem_map.mp hr
      exact hany (List.any_eq_true.mpr
        ⟨res', hres', (sameKey_iff hkey (hitem res' hres')).mpr (hkeys.trans heq)⟩)
    rcases List.mem_append.mp hres with hold | hold
    · rw [hsum res hold]
      refine List.map_congr_left fun c _ => ?_
      have hmem : res.item ∈ firstBy (sameKey key) seen := h.items ▸ List.mem_map_of_mem hold
      rw [total_snoc, if_neg (hnew _ (mem_of_mem_firstBy hmem)).symm, add_zero]
    · rw [List.mem_singleton.mp hold]
      refine List.map_congr_left fun c _ => ?_
      show (c, memberCount B e c) = (c, total B key (seen ++ [e]) (memberText e key) c)
      rw [total_snoc, total_eq_zero hnew, if_pos rfl, zero_add]

/-- The elements of the result for elements with the same members. -/
theorem consolidate_kinds {elems : List Members} (hall : ∀ e ∈ elems, HasKinds B kinds key e) :
    ∃ acc, elems.foldlM (consolidateStep B key) ([], 0) = some acc ∧
      Consolidating B key elems acc ∧ Summed B key elems acc := by
  have hrun := foldlM_isSome_iff (f := consolidateStep B key)
    (P := fun seen acc => Consolidating B key seen acc ∧
      ((∀ e ∈ seen, HasKinds B kinds key e) → Summed B key seen acc))
    (Q := fun seen e => StepOk B key (firstBy (sameKey key) seen) e) ?_ ?_ elems [] ([], 0)
    ⟨consolidating_nil, fun _ _ h => nomatch h⟩
  · have hok : ∀ pre e post, elems = pre ++ e :: post →
        StepOk B key (firstBy (sameKey key) ([] ++ pre)) e := by
      intro pre e post heq
      have he : HasKinds B kinds key e := hall e (by simp [heq])
      have hkept : ∀ r ∈ firstBy (sameKey key) ([] ++ pre), HasKinds B kinds key r := fun r hr =>
        hall r (heq ▸ List.mem_append_left _ (mem_of_mem_firstBy hr))
      refine ⟨he.read, fun r hr => ⟨he.keyText, (hkept r hr).keyText⟩, fun r hr _ c hc => ?_⟩
      exact (hkept r hr).mem_agg.mpr (he.mem_agg.mp hc)
    obtain ⟨acc, hacc⟩ := Option.isSome_iff_exists.mp (hrun.1.mpr hok)
    obtain ⟨hcons, hsum⟩ := hrun.2 acc hacc
    exact ⟨acc, hacc, hcons, hsum hall⟩
  · intro seen acc e h
    exact consolidateStep_isSome_iff h.1 e
  · rintro seen acc e acc' ⟨hcons, hsum⟩ hstep
    obtain ⟨rfl, hread⟩ := consolidateStep_eq_some hcons hstep
    refine ⟨consolidating_consolidated hcons hread, fun hseen => ?_⟩
    have hold : ∀ e' ∈ seen, HasKinds B kinds key e' := fun e' he' =>
      hseen e' (List.mem_append_left _ he')
    exact summed_consolidated hkey hold (hseen e (by simp)) hcons (hsum hold)

-- ---------------------------------------------------------------------------
-- The elements of the result
-- ---------------------------------------------------------------------------

/-- What the consolidation is for: one element for each key; its integers are the sums over the
elements with the key, and what else it has is what the first of them has. -/
structure SumsPerKey (B : Builtins) (kinds : String → Option (AttrType × Option AggType))
    (key : String) (elems items : List Members) : Prop where
  nodup : (items.map (memberText · key)).Nodup
  keys : ∀ t, t ∈ items.map (memberText · key) ↔ t ∈ elems.map (memberText · key)
  sums : ∀ item ∈ items, ∀ c, summed (kinds c) = true →
    memberText item c = some (toString (total B key elems (memberText item key) c))
  others : ∀ item ∈ items, ∀ name, summed (kinds name) = false → item.lookup name =
    (elems.find? fun e => memberText e key = memberText item key).bind (·.lookup name)

theorem sumsPerKey_toMembers {elems : List Members} {acc : List ResItem × Nat}
    (hall : ∀ e ∈ elems, HasKinds B kinds key e) (h : Consolidating B key elems acc)
    (hsum : Summed B key elems acc) :
    SumsPerKey B kinds key elems (acc.1.map ResItem.toMembers) := by
  have hitem : ∀ res ∈ acc.1, res.item ∈ elems := fun res hres =>
    mem_of_mem_firstBy (h.items ▸ List.mem_map_of_mem hres)
  have hlookup : ∀ res ∈ acc.1, ∀ name, summed (kinds name) = false →
      res.toMembers.lookup name = res.item.lookup name := by
    intro res hres name hname
    have hnot : name ∉ _list_agg_attrs res.item := by
      rw [(hall _ (hitem res hres)).mem_agg, hname]
      exact Bool.false_ne_true
    rw [lookup_toMembers (hsum res hres)]
    simp [hnot]
  have htext : ∀ res ∈ acc.1, memberText res.toMembers key = memberText res.item key := by
    intro res hres
    rw [memberText, hlookup res hres key hkey, memberText]
  -- The keys of the result are those of the kept elements.
  have hby : ∀ r ∈ elems, ∀ e ∈ elems,
      sameKey key r e = decide (memberText r key = memberText e key) := by
    intro r hr e _
    rw [Bool.eq_iff_iff, sameKey_iff hkey (hall r hr), decide_eq_true_eq]
  have hitems := h.items.trans (firstBy_congr hby)
  have hkeys : (acc.1.map ResItem.toMembers).map (memberText · key) =
      (acc.1.map ResItem.item).map (memberText · key) := by
    rw [List.map_map, List.map_map]
    exact List.map_congr_left htext
  refine ⟨?_, fun t => ?_, ?_, ?_⟩
  · rw [hkeys, hitems]
    exact nodup_map_firstBy _ (fun _ _ => decide_eq_true_iff) elems
  · rw [hkeys, hitems]
    exact mem_map_firstBy _ fun _ _ => decide_eq_true_iff
  · rw [List.forall_mem_map]
    intro res hres c hc
    have hmem : c ∈ _list_agg_attrs res.item := (hall _ (hitem res hres)).mem_agg.mpr hc
    have hread := (h.copies res hres).read c hmem
    rw [memberText, lookup_toMembers (hsum res hres), htext res hres]
    -- Only a basic value has been read.
    cases hv : res.item.lookup c with
    | none => simp [memberInt, memberText, hv] at hread
    | some v =>
      cases v with
      | basic a t s => simp [hmem, AttrValue.withText, AttrValue.text]
      | _ => simp [memberInt, memberText, hv, AttrValue.text] at hread
  · rw [List.forall_mem_map]
    intro res hres name hname
    have hmem : res.item ∈
        firstBy (fun r e => decide (memberText r key = memberText e key)) elems :=
      hitems ▸ List.mem_map_of_mem hres
    have hfirst : elems.find? (fun e => memberText e key = memberText res.item key) =
        some res.item := by
      rw [← find?_firstBy_key (memberText · key) fun _ _ => decide_eq_true_iff]
      exact find?_eq_some_of_nodup (nodup_map_firstBy _ (fun _ _ => decide_eq_true_iff) elems) hmem
    rw [hlookup res hres name hname, htext res hres, hfirst]
    rfl

omit hkey

-- ---------------------------------------------------------------------------
-- All sources
-- ---------------------------------------------------------------------------

/-- `_append_agg`, followed by `consolidate_list`. -/
def appendConsolidated (B : Builtins) (oattr : OAttr) : Option Consolidated :=
  (_append_agg oattr).bind (consolidate_list B)

/-- The struct elements of all sources. -/
def elements (oattr : OAttr) : List Members :=
  oattr.sources.flatMap fun source => (source.2.items.getD []).filterMap Elem.members

/-- Append lists, none of them empty, with struct elements that have all the same members, one
of them the key. -/
structure AppendFamily (B : Builtins) (kinds : String → Option (AttrType × Option AggType))
    (sname key : String) (oattr : OAttr) : Prop where
  lists : ∀ source ∈ oattr.sources, ∃ size items, source.2 = .list (some .append) sname size items ∧
    items ≠ [] ∧ ∀ elem ∈ items, elem.members.isSome
  isKey : ∀ name, (∃ t, kinds name = some (t, some .listkey)) ↔ name = key
  key_ne : key ≠ ""
  members : ∀ e ∈ elements oattr, HasKinds B kinds key e

theorem AppendFamily.key_not_summed {sname : String} {oattr : OAttr}
    (h : AppendFamily B kinds sname key oattr) : summed (kinds key) = false := by
  obtain ⟨t, ht⟩ := (h.isKey key).mpr rfl
  rw [ht]
  cases t <;> simp [summed]

theorem AppendFamily.perm {sname : String} {oattr oattr' : OAttr}
    (h : AppendFamily B kinds sname key oattr) (hperm : oattr'.sources.Perm oattr.sources) :
    AppendFamily B kinds sname key oattr' where
  lists := fun source hsource => h.lists source (hperm.subset hsource)
  isKey := h.isKey
  key_ne := h.key_ne
  members := fun e he => h.members e ((hperm.flatMap_right _).subset he)

/-- `_get_list_key` finds an annotated member when there is one. -/
theorem _get_list_key_spec (e : Members) :
    (_get_list_key e = "" ∧ ∀ m ∈ e, m.2.aggtype ≠ some .listkey) ∨
      ∃ m ∈ e, m.2.aggtype = some .listkey ∧ _get_list_key e = m.1 := by
  induction e using List.reverseRecOn with
  | nil => exact .inl ⟨rfl, by simp⟩
  | append_singleton e m ih =>
    rw [_get_list_key, List.foldl_append, List.foldl_cons, List.foldl_nil, ← _get_list_key]
    by_cases hm : m.2.aggtype = some .listkey
    · exact .inr ⟨m, by simp, hm, if_pos hm⟩
    · rw [if_neg hm]
      rcases ih with ⟨hempty, hnone⟩ | ⟨m', hm', hagg, hname⟩
      · refine .inl ⟨hempty, fun m' hm' => ?_⟩
        rcases List.mem_append.mp hm' with hm' | hm'
        · exact hnone m' hm'
        · rwa [List.mem_singleton.mp hm']
      · exact .inr ⟨m', List.mem_append_left _ hm', hagg, hname⟩

theorem _get_list_key_eq {e : Members} (h : HasKinds B kinds key e)
    (hkey : ∀ name, (∃ t, kinds name = some (t, some .listkey)) ↔ name = key) :
    _get_list_key e = key := by
  have hkind : ∀ m ∈ e, kinds m.1 = some (m.2.type, m.2.aggtype) := by
    intro m hm
    rw [← h.kind, memberKind, (mem_iff_lookup h.nodup).mp hm]
    rfl
  rcases _get_list_key_spec e with ⟨-, hnone⟩ | ⟨m, hm, hagg, hname⟩
  · obtain ⟨t, ht⟩ := (hkey key).mpr rfl
    rw [← h.kind, memberKind] at ht
    obtain ⟨v, hv, heq⟩ := Option.map_eq_some_iff.mp ht
    exact absurd (Prod.ext_iff.mp heq).2 (hnone _ ((mem_iff_lookup h.nodup).mpr hv))
  · rw [hname]
    exact (hkey m.1).mp ⟨m.2.type, by rw [hkind m hm, hagg]⟩

theorem mapM_members {elems : List Elem} (h : ∀ elem ∈ elems, elem.members.isSome) :
    elems.mapM Elem.members = some (elems.filterMap Elem.members) := by
  induction elems with
  | nil => rfl
  | cons elem rest ih =>
    obtain ⟨ms, hms⟩ := Option.isSome_iff_exists.mp (h elem List.mem_cons_self)
    rw [List.mapM_cons, hms, ih fun elem' h' => h elem' (List.mem_cons_of_mem _ h'),
      List.filterMap_cons_some hms]
    rfl

/-- The lists one behind the other. -/
theorem AppendFamily.append {sname : String} {oattr : OAttr}
    (h : AppendFamily B kinds sname key oattr) :
    ∃ items, _append_agg oattr = some (.list (some .append) sname (toString items.length) items) ∧
      items ≠ [] ∧ items.mapM Elem.members = some (elements oattr) := by
  have hitems : ∀ source ∈ oattr.sources,
      listItems sname source.2 = some (source.2.items.getD []) := by
    intro source hsource
    obtain ⟨size, items, heq, hne, -⟩ := h.lists source hsource
    rw [heq, listItems, if_pos ⟨hne, rfl⟩]
    rfl
  have hfirst : oattr.first ∈ oattr.sources := List.mem_cons_self
  obtain ⟨size, items, heq, hne, -⟩ := h.lists oattr.first hfirst
  have hname : get_list_name oattr.first.2 = some sname := by
    simp [heq, get_list_name, hne]
  refine ⟨(oattr.sources.map fun source => source.2.items.getD []).flatten, ?_, ?_, ?_⟩
  · rw [_append_agg, hname, Option.bind_eq_bind, Option.bind_some, mapM_eq_some_map hitems, heq]
    rfl
  · intro hnil
    have hempty := List.flatten_eq_nil_iff.mp hnil _ (List.mem_map_of_mem hfirst)
    rw [heq] at hempty
    exact hne hempty
  · rw [mapM_members, elements, List.flatMap_def, List.filterMap_flatten, List.map_map]
    · rfl
    · intro elem helem
      obtain ⟨l, hl, hmem⟩ := List.mem_flatten.mp helem
      obtain ⟨source, hsource, rfl⟩ := List.mem_map.mp hl
      obtain ⟨size, items, heq, -, hall⟩ := h.lists source hsource
      rw [heq] at hmem
      exact hall elem hmem

/-- The result's elements. -/
theorem AppendFamily.sums {sname : String} {oattr : OAttr}
    (h : AppendFamily B kinds sname key oattr) :
    ∃ items : List Members, appendConsolidated B oattr = some
        (.list (.list (some .append) sname (toString items.length) (items.map .struct))) ∧
      SumsPerKey B kinds key (elements oattr) items := by
  obtain ⟨elems, happend, hne, hmembers⟩ := h.append
  obtain ⟨acc, hacc, hcons, hsum⟩ := consolidate_kinds h.key_not_summed h.members
  refine ⟨acc.1.map ResItem.toMembers, ?_,
    sumsPerKey_toMembers h.key_not_summed h.members hcons hsum⟩
  rw [appendConsolidated, happend, Option.bind_some, consolidate_list]
  obtain ⟨first, rest, rfl⟩ := List.exists_cons_of_ne_nil hne
  obtain ⟨ms, hms, hall⟩ : ∃ ms, first.members = some ms ∧ ms ∈ elements oattr := by
    rw [List.mapM_cons] at hmembers
    cases hms : first.members with
    | none => simp [hms] at hmembers
    | some ms =>
      cases hrest : rest.mapM Elem.members with
      | none => simp [hms, hrest] at hmembers
      | some mss =>
        have heq : ms :: mss = elements oattr := by simpa [hms, hrest] using hmembers
        exact ⟨ms, rfl, heq ▸ List.mem_cons_self⟩
  have hkey : _get_list_key ms = key := _get_list_key_eq (h.members ms hall) h.isKey
  simp only [get_list_name, listItems, List.isEmpty_cons, Bool.false_eq_true, if_false, ne_eq,
    reduceCtorEq, not_false_eq_true, and_self, if_true, List.head?_cons, hms, hkey, h.key_ne,
    consolidateItems, hmembers, hacc, Option.bind_eq_bind, Option.bind_some, AttrValue.aggtype,
    List.length_map, hcons.size]

-- ---------------------------------------------------------------------------
-- The order of the sources
-- ---------------------------------------------------------------------------

/-- The key of an element and the texts of its sums. -/
def summary (kinds : String → Option (AttrType × Option AggType)) (key : String) (item : Members) :
    Option String × (String → Option String) :=
  (memberText item key, fun c => if summed (kinds c) then memberText item c else none)

theorem SumsPerKey.perm {elems elems' items items' : List Members}
    (h : SumsPerKey B kinds key elems items) (h' : SumsPerKey B kinds key elems' items')
    (hperm : elems.Perm elems') :
    (items.map (summary kinds key)).Perm (items'.map (summary kinds key)) := by
  -- A summary is a function of the key.
  have hform : ∀ {elems items}, SumsPerKey B kinds key elems items →
      items.map (summary kinds key) = (items.map (memberText · key)).map fun t =>
        (t, fun c => if summed (kinds c) then some (toString (total B key elems t c))
          else none) := by
    intro elems items hsums
    rw [List.map_map]
    refine List.map_congr_left fun item hitem => Prod.ext rfl (funext fun c => ?_)
    show (if summed (kinds c) then _ else none) = if summed (kinds c) then _ else none
    by_cases hc : summed (kinds c) = true
    · rw [if_pos hc, if_pos hc, hsums.sums item hitem c hc]
    · rw [if_neg hc, if_neg hc]
  have hkeys : (items.map (memberText · key)).Perm (items'.map (memberText · key)) := by
    refine (List.perm_ext_iff_of_nodup h.nodup h'.nodup).mpr fun t => ?_
    rw [h.keys, h'.keys]
    exact (hperm.map _).mem_iff
  rw [hform h, hform h']
  simp only [total_perm hperm]
  exact hkeys.map _

/-- Append lists whose elements have the same members give one element for each key, with the
integers added up over all sources, and the order of the sources changes neither the keys nor
the sums. -/
theorem append_sums_per_key {sname : String} {oattr : OAttr}
    (h : AppendFamily B kinds sname key oattr) :
    ∃ items : List Members, appendConsolidated B oattr = some
        (.list (.list (some .append) sname (toString items.length) (items.map .struct))) ∧
      SumsPerKey B kinds key (elements oattr) items ∧
      ∀ oattr' : OAttr, oattr'.sources.Perm oattr.sources →
        ∃ items' : List Members, appendConsolidated B oattr' = some
            (.list (.list (some .append) sname (toString items'.length) (items'.map .struct))) ∧
          (items'.map (summary kinds key)).Perm (items.map (summary kinds key)) := by
  obtain ⟨items, hresult, hsums⟩ := h.sums
  refine ⟨items, hresult, hsums, fun oattr' hperm => ?_⟩
  obtain ⟨items', hresult', hsums'⟩ := (h.perm hperm).sums
  exact ⟨items', hresult', hsums'.perm hsums (hperm.flatMap_right _)⟩

/-- Statistics with the other network as the key, and a router that is neither the key nor an
integer. -/
def sampleStats (vn bytes router : String) : Members :=
  [("other_vn", .basic (some .listkey) (.other "string") (some vn)),
    ("bytes", .basic none .i64 (some bytes)),
    ("router", .basic none (.other "string") (some router))]

def sampleKinds : String → Option (AttrType × Option AggType) :=
  memberKind (sampleStats "" "0" "")

/-- A list with one element from each of two sources. -/
def sampleAppend (a b : String × Members) : OAttr :=
  ⟨(a.1, .list (some .append) "VnStats" "1" [.struct a.2]),
    [(b.1, .list (some .append) "VnStats" "1" [.struct b.2])]⟩

theorem appendFamily_sample {a b : String × Members}
    (hall : ∀ e ∈ [a.2, b.2], HasKinds default sampleKinds "other_vn" e) :
    AppendFamily default sampleKinds "VnStats" "other_vn" (sampleAppend a b) where
  lists := by
    have hmembers : ∀ e ∈ [a.2, b.2], (Elem.struct e).members.isSome := by
      intro e he
      cases e with
      | nil => exact nomatch (hall [] he).keyText
      | cons m ms => rfl
    simp only [List.forall_mem_cons] at hmembers
    intro source hsource
    simp only [OAttr.sources, sampleAppend, List.mem_cons, List.not_mem_nil, or_false] at hsource
    rcases hsource with rfl | rfl
    · exact ⟨"1", [.struct a.2], rfl, by simp, by simpa using hmembers.1⟩
    · exact ⟨"1", [.struct b.2], rfl, by simp, by simpa using hmembers.2.1⟩
  isKey := by
    refine fun name => ⟨?_, fun hname => hname ▸ ⟨_, rfl⟩⟩
    rintro ⟨t, ht⟩
    obtain ⟨v, hv, hkind⟩ := Option.map_eq_some_iff.mp ht
    have hmem : (name, v) ∈ sampleStats "" "0" "" := (mem_iff_lookup (by decide)).mpr hv
    simp only [sampleStats, List.mem_cons, Prod.mk.injEq, List.not_mem_nil, or_false] at hmem
    rcases hmem with ⟨hname, -⟩ | ⟨-, rfl⟩ | ⟨-, rfl⟩
    · exact hname
    · cases hkind
    · cases hkind
  key_ne := by decide
  members := by
    intro e he
    refine hall e ?_
    have hne : ∀ ms : Members, ∀ e' ∈ (Elem.struct ms).members, e' = ms := by
      intro ms e' he'
      cases ms with
      | nil => cases he'
      | cons m ms => exact (Option.some.inj he').symm
    simp only [elements, OAttr.sources, sampleAppend, List.flatMap_cons, List.flatMap_nil,
      AttrValue.items, Option.getD_some, List.mem_append, List.mem_filterMap, List.mem_singleton,
      List.not_mem_nil, or_false] at he
    rcases he with ⟨elem, rfl, h'⟩ | ⟨elem, rfl, h'⟩
    · simp [hne a.2 e h']
    · simp [hne b.2 e h']

theorem hasKinds_sample {vn bytes router : String} (hbytes : (decimal bytes).isSome) :
    HasKinds default sampleKinds "other_vn" (sampleStats vn bytes router) where
  nodup := by
    show ["other_vn", "bytes", "router"].Nodup
    decide
  kind := by
    funext name
    simp only [sampleKinds, memberKind, sampleStats, List.lookup_cons, List.lookup_nil]
    split
    · rfl
    · split
      · rfl
      · split <;> rfl
  keyText := rfl
  read := by
    have hattrs : _list_agg_attrs (sampleStats vn bytes router) = ["bytes"] := rfl
    intro c hc
    rw [hattrs] at hc
    obtain rfl := List.mem_singleton.mp hc
    exact hbytes

/-- Two sources with the same key. -/
def sampleFirst (router : String) : String × Members := ("a", sampleStats "vn-02" "1800" router)

def sampleSecond (router : String) : String × Members := ("b", sampleStats "vn-02" "1200" router)

theorem appendFamily_same_key (router router' : String) :
    AppendFamily default sampleKinds "VnStats" "other_vn"
      (sampleAppend (sampleFirst router) (sampleSecond router')) := by
  refine appendFamily_sample ?_
  simp only [List.forall_mem_cons]
  exact ⟨hasKinds_sample (by decide), hasKinds_sample (by decide), by simp⟩

theorem append_sums_sample :
    ∃ items : List Members, appendConsolidated default
        (sampleAppend (sampleFirst "r1") (sampleSecond "r1")) = some
          (.list (.list (some .append) "VnStats" (toString items.length) (items.map .struct))) ∧
      SumsPerKey default sampleKinds "other_vn"
        (elements (sampleAppend (sampleFirst "r1") (sampleSecond "r1"))) items := by
  obtain ⟨items, hresult, hsums, -⟩ := append_sums_per_key (appendFamily_same_key "r1" "r1")
  exact ⟨items, hresult, hsums⟩

/-- The result is the same up to the order of its elements, whatever the order of the sources. -/
def OrderIndependent (B : Builtins) : Prop :=
  ∀ kinds sname key (oattr oattr' : OAttr), AppendFamily B kinds sname key oattr →
    oattr'.sources.Perm oattr.sources → ∃ items items' : List Members,
      appendConsolidated B oattr = some
        (.list (.list (some .append) sname (toString items.length) (items.map .struct))) ∧
      appendConsolidated B oattr' = some
        (.list (.list (some .append) sname (toString items'.length) (items'.map .struct))) ∧
      items.Perm items'

theorem sample_items {oattr : OAttr} {elem : Members} {items : List Members}
    (heval : appendConsolidated default oattr =
      some (.list (.list (some .append) "VnStats" "1" [.struct elem])))
    (h : appendConsolidated default oattr = some
      (.list (.list (some .append) "VnStats" (toString items.length) (items.map .struct)))) :
    items = [elem] := by
  rw [heval, Option.some.injEq, Consolidated.list.injEq, AttrValue.list.injEq] at h
  refine (List.map_injective_iff.mpr ?_) (h.2.2.2.symm.trans (List.map_singleton ..).symm)
  exact fun _ _ heq => Elem.struct.inj heq

/-- The router is that of the source that comes first. -/
theorem not_orderIndependent : ¬ OrderIndependent default := by
  intro h
  have hswap : (sampleAppend (sampleSecond "r2") (sampleFirst "r1")).sources.Perm
      (sampleAppend (sampleFirst "r1") (sampleSecond "r2")).sources := List.Perm.swap ..
  obtain ⟨items, items', hitems, hitems', hperm⟩ :=
    h _ _ _ _ _ (appendFamily_same_key "r1" "r2") hswap
  obtain rfl : items = [sampleStats "vn-02" "3000" "r1"] := sample_items rfl hitems
  obtain rfl : items' = [sampleStats "vn-02" "3000" "r2"] := sample_items rfl hitems'
  have heq := congrArg (memberText · "router")
    (List.singleton_inj.mp (List.singleton_perm.mp hperm))
  exact absurd heq (by decide)

end TfAnalytics.OpServer
