import TfAnalytics.Lib.JsonValue
import Mathlib.Data.List.Forall2

/-!
# Alarm generator — the paths of alarm rules

An operand of an alarm rule is a dotted path into a UVE (`_get_uve_attribute`, alarmgen.py). It
goes down by the names of attributes. `*` and `__value` go on at every value of a dictionary,
`__key` at every key, a list is gone through without a name, and a text is read as JSON when the
path goes on behind it. What comes back is one result, or a list of results as soon as the path
branches, whose elements are lists again if it branches once more.

`Reaches` says which values a path reaches, and `arrive` where it comes before it branches. An
attribute that is not there is null (`get`), and a path that goes on behind null reaches nothing.

* `reaches_iff_arrive`: what is reached, by where the path comes;
* `returned_get_uve_attribute`: what the code returns there;
* `reads_branch`, `reads_operand`: which results have a value and a path to read.
-/

namespace TfAnalytics.OpServer.AlarmProcessor

open TfAnalytics.Lib

-- ---------------------------------------------------------------------------
-- Operands
-- ---------------------------------------------------------------------------

/-- `split('.')`. -/
def splitDots (s : String) : List String := (s.toList.splitOn '.').map String.ofList

theorem splitDots_cons (s : String) : ∃ a attr_list, splitDots s = a :: attr_list :=
  List.exists_cons_of_ne_nil (by simp [splitDots])

/-- `uve_path`: dictionaries of one item each. -/
abbrev UvePath := List (String × JsonValue)

/-- What `_get_uve_attribute` returns. It has no branch for what is left of a path behind a
number or a boolean, and returns `None` there. -/
inductive OperandVal
  | none
  | attr (value : JsonValue) (uve_path : UvePath) (status : Bool)
  | list (elems : List OperandVal)

namespace OperandVal

/-- `isinstance(val, dict) and val['status'] is False`. -/
def failed : OperandVal → Bool
  | .attr _ _ status => !status
  | _ => false

/-- `val['value']`. -/
def value : OperandVal → Except PyError JsonValue
  | .attr value _ _ => .ok value
  | _ => .error .TypeError

/-- `val['uve_path']`. -/
def uve_path : OperandVal → Except PyError UvePath
  | .attr _ uve_path _ => .ok uve_path
  | _ => .error .TypeError

end OperandVal

section

variable (J : Loads)

def get_uve_attribute : JsonValue → List String → UvePath → OperandVal
  | tuve, [], uve_path => .attr tuve uve_path true
  | .null, _ :: _, uve_path => .attr .null uve_path false
  | .dict items, a :: attr_list, uve_path =>
    if a = "*" ∨ a = "__value" then
      .list (items.map fun item => get_uve_attribute item.2 attr_list (uve_path ++ [item]))
    else if a = "__key" then
      .list (items.map fun item => get_uve_attribute (.str item.1) attr_list (uve_path ++ [item]))
    else
      let tuve := (items.lookup a).getD .null
      get_uve_attribute tuve attr_list (uve_path ++ [(a, tuve)])
  | .list elems, a :: attr_list, uve_path =>
    .list (elems.map fun elem =>
      get_uve_attribute elem (a :: attr_list) (uve_path ++ [("__list_element__", elem)]))
  | .str s, a :: attr_list, uve_path =>
    match _ : J.loads s with
    | .none => .attr .null uve_path false
    | some json_elem => get_uve_attribute json_elem (a :: attr_list) uve_path
  | .bool _, _ :: _, _ | .num _, _ :: _, _ => .none
termination_by tuve attr_list => (attr_list.length, tuve.weight)
decreasing_by
  all_goals first
    | exact Prod.Lex.left _ _ (Nat.lt_succ_self _)
    | exact Prod.Lex.right _ (JsonValue.weight_lt_of_mem ‹_›)
    | exact Prod.Lex.right _ (J.shrinks ‹_›)

def get_operand_value (uve : JsonValue) (operand : String) : OperandVal :=
  get_uve_attribute J uve (splitDots operand) []

-- ---------------------------------------------------------------------------
-- What a path reaches
-- ---------------------------------------------------------------------------

/-- A node of a UVE with the attributes of a path that are left. -/
abbrev Place := JsonValue × List String

/-- A path comes to its end at a value, goes on behind null or a text that is no JSON, goes on
behind a number or a boolean, or branches. -/
inductive Arrival
  | value (v : JsonValue)
  | nothing
  | beyond
  | fork (branches : List Place)

/-- Where a path comes before it branches. -/
def arrive : JsonValue → List String → Arrival
  | tuve, [] => .value tuve
  | .null, _ :: _ => .nothing
  | .dict items, a :: attr_list =>
    if a = "*" ∨ a = "__value" then .fork (items.map fun item => (item.2, attr_list))
    else if a = "__key" then .fork (items.map fun item => (.str item.1, attr_list))
    else arrive ((items.lookup a).getD .null) attr_list
  | .list elems, a :: attr_list => .fork (elems.map fun elem => (elem, a :: attr_list))
  | .str s, a :: attr_list =>
    match _ : J.loads s with
    | none => .nothing
    | some v => arrive v (a :: attr_list)
  | .bool _, _ :: _ | .num _, _ :: _ => .beyond
termination_by tuve attr_list => (attr_list.length, tuve.weight)
decreasing_by
  all_goals first
    | exact Prod.Lex.left _ _ (Nat.lt_succ_self _)
    | exact Prod.Lex.right _ (J.shrinks ‹_›)

/-- A path reaches a value. An absent attribute is null. -/
inductive Reaches : JsonValue → List String → JsonValue → Prop
  | here (v : JsonValue) : Reaches v [] v
  | wild {items : List (String × JsonValue)} {a : String} {attr_list : List String}
      {item : String × JsonValue} {v : JsonValue} (ha : a = "*" ∨ a = "__value")
      (hitem : item ∈ items) (h : Reaches item.2 attr_list v) :
      Reaches (.dict items) (a :: attr_list) v
  | key {items : List (String × JsonValue)} {attr_list : List String}
      {item : String × JsonValue} {v : JsonValue} (hitem : item ∈ items)
      (h : Reaches (.str item.1) attr_list v) : Reaches (.dict items) ("__key" :: attr_list) v
  | attr {items : List (String × JsonValue)} {a : String} {attr_list : List String}
      {v : JsonValue} (ha : a ≠ "*" ∧ a ≠ "__value" ∧ a ≠ "__key")
      (h : Reaches ((items.lookup a).getD .null) attr_list v) :
      Reaches (.dict items) (a :: attr_list) v
  | elem {elems : List JsonValue} {elem : JsonValue} {a : String} {attr_list : List String}
      {v : JsonValue} (helem : elem ∈ elems) (h : Reaches elem (a :: attr_list) v) :
      Reaches (.list elems) (a :: attr_list) v
  | text {s : String} {j : JsonValue} {a : String} {attr_list : List String} {v : JsonValue}
      (hs : J.loads s = some j) (h : Reaches j (a :: attr_list) v) :
      Reaches (.str s) (a :: attr_list) v

end

variable {J : Loads}

/-- What there is to reach, by where the path comes. -/
def Arrival.Gives (J : Loads) (v : JsonValue) : Arrival → Prop
  | .value w => v = w
  | .nothing | .beyond => False
  | .fork branches => ∃ b ∈ branches, Reaches J b.1 b.2 v

theorem reaches_iff_arrive {tuve : JsonValue} {attr_list : List String} {v : JsonValue} :
    Reaches J tuve attr_list v ↔ (arrive J tuve attr_list).Gives J v := by
  fun_induction arrive J tuve attr_list with
  | case1 tuve =>
    constructor
    · rintro ⟨⟩
      rfl
    · rintro rfl
      exact .here _
  | case2 a attr_list =>
    constructor
    · rintro ⟨⟩
    · exact False.elim
  | case3 items a attr_list ha =>
    simp only [Arrival.Gives, List.mem_map, exists_exists_and_eq_and]
    constructor
    · intro h
      cases h with
      | wild _ hitem h => exact ⟨_, hitem, h⟩
      | key hitem h => simp at ha
      | attr hne h => exact absurd ha (by tauto)
    · rintro ⟨item, hitem, h⟩
      exact .wild ha hitem h
  | case4 items attr_list ha =>
    simp only [Arrival.Gives, List.mem_map, exists_exists_and_eq_and]
    constructor
    · intro h
      cases h with
      | wild hwild hitem h => exact absurd hwild ha
      | key hitem h => exact ⟨_, hitem, h⟩
      | attr hne h => exact absurd rfl hne.2.2
    · rintro ⟨item, hitem, h⟩
      exact .key hitem h
  | case5 items a attr_list ha hkey ih =>
    rw [← ih]
    constructor
    · intro h
      cases h with
      | wild hwild hitem h => exact absurd hwild ha
      | key hitem h => exact absurd rfl hkey
      | attr hne h => exact h
    · intro h
      exact .attr (by tauto) h
  | case6 elems a attr_list =>
    simp only [Arrival.Gives, List.mem_map, exists_exists_and_eq_and]
    constructor
    · intro h
      cases h with
      | elem helem h => exact ⟨_, helem, h⟩
    · rintro ⟨elem, helem, h⟩
      exact .elem helem h
  | case7 s a attr_list hs =>
    constructor
    · intro h
      cases h with
      | text hloads h =>
        rw [hs] at hloads
        cases hloads
    · exact False.elim
  | case8 s a attr_list j hs ih =>
    rw [← ih]
    constructor
    · intro h
      cases h with
      | text hloads h =>
        rw [hs] at hloads
        cases hloads
        exact h
    · exact .text hs
  | case9 | case10 =>
    constructor
    · rintro ⟨⟩
    · exact False.elim

/-- The branches of a path that branches. -/
def forks (J : Loads) (p : Place) : Option (List Place) :=
  match arrive J p.1 p.2 with
  | .fork branches => some branches
  | _ => none

theorem reaches_iff_of_forks {p : Place} {branches : List Place} (h : forks J p = some branches)
    {v : JsonValue} : Reaches J p.1 p.2 v ↔ ∃ b ∈ branches, Reaches J b.1 b.2 v := by
  unfold forks at h
  rw [reaches_iff_arrive]
  generalize arrive J p.1 p.2 = a at h ⊢
  cases a with
  | value w => cases h
  | nothing => cases h
  | beyond => cases h
  | fork bs =>
    cases h
    rfl

/-- What a place is compared as: one that nothing is reached from counts as null. -/
def shown (J : Loads) (p : Place) : Option JsonValue :=
  match arrive J p.1 p.2 with
  | .value v => some v
  | .nothing => some .null
  | .beyond | .fork _ => none

theorem arrive_of_shown {p : Place} (hforks : forks J p = none) (hshown : shown J p = none) :
    arrive J p.1 p.2 = .beyond := by
  unfold forks at hforks
  unfold shown at hshown
  generalize arrive J p.1 p.2 = a at hforks hshown ⊢
  cases a with
  | value v => cases hshown
  | nothing => cases hshown
  | beyond => rfl
  | fork branches => cases hforks

theorem reaches_of_shown {p : Place} {v w : JsonValue} (hshown : shown J p = some v)
    (h : Reaches J p.1 p.2 w) : w = v := by
  rw [reaches_iff_arrive] at h
  unfold shown at hshown
  generalize arrive J p.1 p.2 = a at h hshown
  cases a with
  | value u => exact h.trans (Option.some.inj hshown)
  | nothing => cases h
  | beyond => cases h
  | fork branches => cases hshown

theorem reaches_shown {p : Place} {v : JsonValue} (hshown : shown J p = some v)
    (h : arrive J p.1 p.2 ≠ .nothing) : Reaches J p.1 p.2 v := by
  rw [reaches_iff_arrive]
  unfold shown at hshown
  generalize arrive J p.1 p.2 = a at h hshown ⊢
  cases a with
  | value u => exact (Option.some.inj hshown).symm
  | nothing => exact absurd rfl h
  | beyond => cases hshown
  | fork branches => cases hshown

theorem not_reaches_of_nothing {p : Place} (h : arrive J p.1 p.2 = .nothing) (v : JsonValue) :
    ¬ Reaches J p.1 p.2 v := by
  rw [reaches_iff_arrive, h]
  exact id

-- ---------------------------------------------------------------------------
-- What the code returns
-- ---------------------------------------------------------------------------

/-- The result at a place to which the path so far has led; the results of its branches, on
longer paths, are of the same kind. -/
def Arrival.Returned (J : Loads) (uve_path : UvePath) (r : OperandVal) : Arrival → Prop
  | .value v => ∃ more, r = .attr v (uve_path ++ more) true
  | .nothing => ∃ more, r = .attr .null (uve_path ++ more) false
  | .beyond => r = .none
  | .fork branches => ∃ rs, r = .list rs ∧
      List.Forall₂ (fun r b => ∃ x more, r = get_uve_attribute J b.1 b.2 (uve_path ++ x :: more))
        rs branches

theorem Arrival.Returned.of_append {uve_path more : UvePath} {r : OperandVal} {a : Arrival}
    (h : a.Returned J (uve_path ++ more) r) : a.Returned J uve_path r := by
  cases a with
  | value v =>
    obtain ⟨more', rfl⟩ := h
    exact ⟨more ++ more', by rw [List.append_assoc]⟩
  | nothing =>
    obtain ⟨more', rfl⟩ := h
    exact ⟨more ++ more', by rw [List.append_assoc]⟩
  | beyond => exact h
  | fork branches =>
    obtain ⟨rs, rfl, hrs⟩ := h
    refine ⟨rs, rfl, hrs.imp fun r b => ?_⟩
    rintro ⟨x, more', rfl⟩
    cases more with
    | nil => exact ⟨x, more', by simp⟩
    | cons y more => exact ⟨y, more ++ x :: more', by simp⟩

theorem returned_get_uve_attribute (tuve : JsonValue) (attr_list : List String)
    (uve_path : UvePath) :
    (arrive J tuve attr_list).Returned J uve_path
      (get_uve_attribute J tuve attr_list uve_path) := by
  fun_induction arrive J tuve attr_list generalizing uve_path with
  | case1 tuve =>
    rw [get_uve_attribute]
    exact ⟨[], by rw [List.append_nil]⟩
  | case2 a attr_list =>
    rw [get_uve_attribute]
    exact ⟨[], by rw [List.append_nil]⟩
  | case3 items a attr_list ha =>
    rw [get_uve_attribute, if_pos ha]
    refine ⟨_, rfl, ?_⟩
    rw [List.forall₂_map_left_iff, List.forall₂_map_right_iff, List.forall₂_same]
    exact fun item _ => ⟨item, [], rfl⟩
  | case4 items attr_list ha =>
    rw [get_uve_attribute, if_neg ha, if_pos rfl]
    refine ⟨_, rfl, ?_⟩
    rw [List.forall₂_map_left_iff, List.forall₂_map_right_iff, List.forall₂_same]
    exact fun item _ => ⟨item, [], rfl⟩
  | case5 items a attr_list ha hkey ih =>
    rw [get_uve_attribute, if_neg ha, if_neg hkey]
    exact (ih _).of_append
  | case6 elems a attr_list =>
    rw [get_uve_attribute]
    refine ⟨_, rfl, ?_⟩
    rw [List.forall₂_map_left_iff, List.forall₂_map_right_iff, List.forall₂_same]
    exact fun elem _ => ⟨_, [], rfl⟩
  | case7 s a attr_list hs =>
    rw [get_uve_attribute]
    split
    · exact ⟨[], by rw [List.append_nil]⟩
    · next j hj =>
      rw [hs] at hj
      cases hj
  | case8 s a attr_list j hs ih =>
    rw [get_uve_attribute]
    split
    · next hj =>
      rw [hs] at hj
      cases hj
    · next j' hj =>
      obtain rfl : j = j' := Option.some.inj (hs.symm.trans hj)
      exact ih _
  | case9 | case10 =>
    rw [get_uve_attribute]
    rfl

/-- The path of a result goes on from the path so far. -/
theorem prefix_of_get_uve_attribute {tuve v : JsonValue} {attr_list : List String}
    {uve_path path : UvePath} {status : Bool}
    (h : get_uve_attribute J tuve attr_list uve_path = .attr v path status) :
    uve_path <+: path := by
  have hreturned := returned_get_uve_attribute (J := J) tuve attr_list uve_path
  rw [h] at hreturned
  generalize arrive J tuve attr_list = a at hreturned
  cases a with
  | value w =>
    obtain ⟨more, heq⟩ := hreturned
    injection heq with _ heq _
    exact ⟨more, heq.symm⟩
  | nothing =>
    obtain ⟨more, heq⟩ := hreturned
    injection heq with _ heq _
    exact ⟨more, heq.symm⟩
  | beyond => cases hreturned
  | fork branches =>
    obtain ⟨rs, heq, -⟩ := hreturned
    cases heq

theorem uve_path_ne_nil {tuve v : JsonValue} {a : String} {attr_list : List String}
    {uve_path path : UvePath}
    (h : get_uve_attribute J tuve (a :: attr_list) uve_path = .attr v path true) : path ≠ [] := by
  generalize hl : a :: attr_list = l at h
  fun_induction get_uve_attribute J tuve l uve_path with
  | case1 => cases hl
  | case2 | case3 | case4 | case6 | case7 | case9 | case10 => cases h
  | case5 =>
    -- an attribute is put on the path before it goes on
    obtain ⟨more, rfl⟩ := prefix_of_get_uve_attribute h
    simp
  | case8 _ _ _ _ _ _ ih => exact ih hl h

theorem failed_iff {tuve : JsonValue} {attr_list : List String} {uve_path : UvePath} :
    (get_uve_attribute J tuve attr_list uve_path).failed = true ↔
      arrive J tuve attr_list = .nothing := by
  have hreturned := returned_get_uve_attribute (J := J) tuve attr_list uve_path
  generalize get_uve_attribute J tuve attr_list uve_path = r at hreturned ⊢
  generalize arrive J tuve attr_list = a at hreturned ⊢
  cases a with
  | value v =>
    obtain ⟨more, rfl⟩ := hreturned
    simp [OperandVal.failed]
  | nothing =>
    obtain ⟨more, rfl⟩ := hreturned
    simp [OperandVal.failed]
  | beyond =>
    obtain rfl : r = .none := hreturned
    simp [OperandVal.failed]
  | fork branches =>
    obtain ⟨rs, rfl, -⟩ := hreturned
    simp [OperandVal.failed]

-- ---------------------------------------------------------------------------
-- What the code reads of it
-- ---------------------------------------------------------------------------

/-- There is a path, and it is not empty: its first node is read for the variables. -/
def OperandVal.HasPath (r : OperandVal) : Prop := ∃ x path, r.uve_path = .ok (x :: path)

/-- The code reads what the place shows, and a path with it, or it raises. -/
def Reads (J : Loads) (value : Except PyError JsonValue) (hasPath : Prop) (p : Place) : Prop :=
  match shown J p with
  | some v => value = .ok v ∧ hasPath
  | none => ∃ e, value = .error e

theorem reads_of_returned {p : Place} {uve_path : UvePath} {r : OperandVal}
    (h : (arrive J p.1 p.2).Returned J uve_path r)
    (hpath : ∀ v path status, r = .attr v path status → path ≠ []) :
    Reads J r.value r.HasPath p := by
  unfold Reads shown
  generalize arrive J p.1 p.2 = a at h ⊢
  cases a with
  | value v =>
    obtain ⟨more, rfl⟩ := h
    obtain ⟨x, path, heq⟩ := List.exists_cons_of_ne_nil (hpath _ _ _ rfl)
    exact ⟨rfl, x, path, congrArg _ heq⟩
  | nothing =>
    obtain ⟨more, rfl⟩ := h
    obtain ⟨x, path, heq⟩ := List.exists_cons_of_ne_nil (hpath _ _ _ rfl)
    exact ⟨rfl, x, path, congrArg _ heq⟩
  | beyond =>
    obtain rfl : r = .none := h
    exact ⟨_, rfl⟩
  | fork branches =>
    obtain ⟨rs, rfl, -⟩ := h
    exact ⟨_, rfl⟩

theorem reads_branch (b : Place) (uve_path more : UvePath) (x : String × JsonValue) :
    Reads J (get_uve_attribute J b.1 b.2 (uve_path ++ x :: more)).value
      (get_uve_attribute J b.1 b.2 (uve_path ++ x :: more)).HasPath b := by
  refine reads_of_returned (returned_get_uve_attribute _ _ _) fun v path status heq hnil => ?_
  have hprefix := prefix_of_get_uve_attribute heq
  rw [hnil, List.prefix_nil] at hprefix
  simp at hprefix

theorem reads_operand {uve : JsonValue} {a : String} {attr_list : List String}
    (h : arrive J uve (a :: attr_list) ≠ .nothing) :
    Reads J (get_uve_attribute J uve (a :: attr_list) []).value
      (get_uve_attribute J uve (a :: attr_list) []).HasPath (uve, a :: attr_list) := by
  refine reads_of_returned (returned_get_uve_attribute _ _ _) fun v path status heq => ?_
  cases status with
  | true => exact uve_path_ne_nil heq
  | false => exact absurd (failed_iff.mp (by rw [heq]; rfl)) h

/-- Not a list of results. -/
def OperandVal.Single : OperandVal → Prop
  | .list _ => False
  | _ => True

/-- A result by where the path comes: a list for a path that branches. -/
theorem list_or_single {p : Place} {r : OperandVal} (h : (arrive J p.1 p.2).Returned J [] r) :
    (∃ branches rs, forks J p = some branches ∧ r = .list rs ∧
      List.Forall₂ (fun r b => Reads J r.value r.HasPath b) rs branches) ∨
    forks J p = none ∧ r.Single := by
  unfold forks
  generalize arrive J p.1 p.2 = a at h ⊢
  cases a with
  | value v =>
    obtain ⟨more, rfl⟩ := h
    exact Or.inr ⟨rfl, trivial⟩
  | nothing =>
    obtain ⟨more, rfl⟩ := h
    exact Or.inr ⟨rfl, trivial⟩
  | beyond =>
    obtain rfl : r = .none := h
    exact Or.inr ⟨rfl, trivial⟩
  | fork branches =>
    obtain ⟨rs, rfl, hrs⟩ := h
    refine Or.inl ⟨branches, rs, rfl, rfl, hrs.imp fun r b => ?_⟩
    rintro ⟨x, more, rfl⟩
    exact reads_branch b [] more x

end TfAnalytics.OpServer.AlarmProcessor
