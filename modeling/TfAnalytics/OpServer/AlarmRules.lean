import TfAnalytics.Lib.Delimited
import TfAnalytics.Lib.Dict
import TfAnalytics.OpServer.AlarmOperands
import TfAnalytics.OpServer.AlarmOperations
import TfAnalytics.OpServer.AlarmStateMachine

/-!
# Alarm generator — the rules of an alarm

`_evaluate_uve_for_alarms` (alarmgen.py) goes through the AND lists of an alarm. A condition whose
operand fails fails its list; any other is decided by branches for two lists of results, for one
and for none, which read `value` in every result. They do not expect a list inside a list, a
result that is `None`, or one that has failed: the first two raise, and the third counts as null.
`process_alarms` raises the alarm when there is an exception.

* `matchList_spec`: the loops over the results;
* `compare_operands_spec`: the branches are one loop over the pairs that are compared;
* `evaluate_exp_spec`: when a condition raises, and when one of the pairs passes.
-/

namespace TfAnalytics.OpServer.AlarmProcessor

open TfAnalytics.Lib

-- ---------------------------------------------------------------------------
-- What a match says
-- ---------------------------------------------------------------------------

/-- `operand2_val`, with `is_operand2_json_val`. -/
inductive Operand2Val
  | json (val : JsonValue)
  | uve (val : OperandVal)

namespace Operand2Val

/-- A constant does not fail. -/
def failed : Operand2Val → Bool
  | .json _ => false
  | .uve val => val.failed

/-- What `val2` is. -/
def value : Operand2Val → Except PyError JsonValue
  | .json val => .ok val
  | .uve val => val.value

end Operand2Val

/-- `os.path.commonprefix` of two lists. -/
def commonprefix : List String → List String → List String
  | a :: as, b :: bs => if a = b then a :: commonprefix as bs else []
  | _, _ => []

/-- The attributes that are left, read in the value of the last node. -/
def readAttributes : JsonValue → List String → JsonValue
  | val, [] => val
  | .dict items, a :: attr_list => readAttributes ((items.lookup a).getD .null) attr_list
  | _, _ :: _ => .null

/-- The loop: `pnode` is the last node gone by. -/
def followUvePath : Option JsonValue → List String → UvePath → JsonValue
  | pnode, a :: attr_list, (key, val) :: uve_path =>
    if a = "__key" then .str key
    else if a = "__value" then val
    else if a ≠ "*" ∧ a ≠ key then pnode.elim .null (readAttributes · (a :: attr_list))
    else
      match uve_path with
      | ("__list_element__", elem) :: uve_path => followUvePath (some elem) attr_list uve_path
      | uve_path => followUvePath (some val) attr_list uve_path
  | pnode, attr_list, _ => pnode.elim .null (readAttributes · attr_list)

def get_attribute_from_uve_path (attr : String) : UvePath → Except PyError JsonValue
  | [] => .error .IndexError
  | uve_path => .ok (followUvePath none (splitDots attr) uve_path)

section

variable (J : Loads) (dumps : JsonValue → String)

/-- A text of JSON stays as it is. -/
def get_json_value (val : JsonValue) : String :=
  match val with
  | .str s => if (J.loads s).isSome then s else dumps val
  | _ => dumps val

def get_json_variables (exp : AlarmCondition) (operand1_val : OperandVal)
    (operand2_val : Operand2Val) : Except PyError (List (String × String)) :=
  exp.«variables».foldlM (fun json_vars var => do
    let uve_path ←
      match operand2_val with
      | .json _ => operand1_val.uve_path
      | .uve operand2_val =>
        let p1 := commonprefix (splitDots exp.operand1) (splitDots var)
        let p2 := commonprefix (splitDots (exp.operand2.uve_attribute.getD "")) (splitDots var)
        if p2 < p1 then operand1_val.uve_path else operand2_val.uve_path
    let var_val ← get_attribute_from_uve_path var uve_path
    return setList var (get_json_value J dumps var_val) json_vars) []

def get_alarm_match (exp : AlarmCondition) (operand1_val : OperandVal)
    (operand2_val : Operand2Val) : Except PyError AlarmMatch := do
  let json_vars ← get_json_variables J dumps exp operand1_val operand2_val
  let json_operand1_val := get_json_value J dumps (← operand1_val.value)
  let json_operand2_val ←
    match operand2_val with
    | .json _ => pure none
    | .uve operand2_val => some <$> get_json_value J dumps <$> operand2_val.value
  return ⟨json_operand1_val, json_operand2_val, json_vars⟩

-- ---------------------------------------------------------------------------
-- Conditions and lists
-- ---------------------------------------------------------------------------

/-- `None` for an empty match list. -/
def conditionMatch (exp : AlarmCondition) (match_list : List AlarmMatch) :
    Option AlarmConditionMatch :=
  if match_list.isEmpty then none else some ⟨exp, match_list⟩

/-- The loops over one list or two: the values that compare true. -/
def matchList (exp : AlarmCondition) :
    List (OperandVal × Operand2Val) → Except PyError (List AlarmMatch)
  | [] => return []
  | (val1, val2) :: vals => do
    let matched ← compare_operand_vals J (← val1.value) (← val2.value) exp.operation
    if matched then
      let m ← get_alarm_match J dumps exp val1 val2
      return m :: (← matchList exp vals)
    else matchList exp vals

def get_operand2_value (uve : JsonValue) (operand2 : AlarmOperand2) : Except PyError Operand2Val :=
  match operand2.json_value with
  | some json_value =>
    match J.loads json_value with
    | some val => .ok (.json val)
    | none => .error .ValueError
  | none =>
    match operand2.uve_attribute with
    | some uve_attribute => .ok (.uve (get_operand_value J uve uve_attribute))
    | none => .error .AttributeError

/-- The branches for two lists, for one and for none. -/
def compare_operands (exp : AlarmCondition) :
    OperandVal → Operand2Val → Except PyError (Option AlarmConditionMatch)
  | .list vals1, .uve (.list vals2) =>
    if vals1.length ≠ vals2.length then return none
    else return conditionMatch exp (← matchList J dumps exp (vals1.zip (vals2.map .uve)))
  | .list vals1, val2 => do
    let _ ← val2.value
    return conditionMatch exp (← matchList J dumps exp (vals1.map (·, val2)))
  | val1, .uve (.list vals2) =>
    return conditionMatch exp (← matchList J dumps exp (vals2.map (val1, .uve ·)))
  | val1, val2 => do
    if ← compare_operand_vals J (← val1.value) (← val2.value) exp.operation then
      return some ⟨exp, [← get_alarm_match J dumps exp val1 val2]⟩
    else return none

/-- One condition of an AND list: none fails the list. -/
def evaluate_exp (uve : JsonValue) (exp : AlarmCondition) :
    Except PyError (Option AlarmConditionMatch) := do
  let operand1_val := get_operand_value J uve exp.operand1
  if operand1_val.failed then return none
  let operand2_val ← get_operand2_value J uve exp.operand2
  if operand2_val.failed then return none
  compare_operands J dumps exp operand1_val operand2_val

/-- An AND list: none if a condition fails it, and the conditions behind it are not evaluated. -/
def evaluate_and_list (uve : JsonValue) :
    List AlarmCondition → Except PyError (Option (List AlarmConditionMatch))
  | [] => return some []
  | exp :: cfg_and_list => do
    match ← evaluate_exp J dumps uve exp with
    | none => return none
    | some condition =>
      return (← evaluate_and_list uve cfg_and_list).map (condition :: ·)

def evaluate_or_list (uve : JsonValue) :
    List (List AlarmCondition) → Except PyError (List AlarmAndList)
  | [] => return []
  | cfg_and_list :: cfg_or_list => do
    match ← evaluate_and_list J dumps uve cfg_and_list with
    | none => evaluate_or_list uve cfg_or_list
    | some and_list => return ⟨and_list⟩ :: (← evaluate_or_list uve cfg_or_list)

-- ---------------------------------------------------------------------------
-- Alarms
-- ---------------------------------------------------------------------------

def VM_TABLE : String := "ObjectVMTable"

/-- `rsplit(':', 1)[0]`. -/
def parentName (name : List Char) : String := String.ofList ((rsplitMax ':' 1 name).headD [])

/-- `names[0].rsplit(':', 1)[0]` of the interface list: only a text has `rsplit`. -/
def get_uve_parent_fqname (table uve_name : List Char) (uve : JsonValue) :
    Except PyError (Option String) :=
  let parent : Except PyError String :=
    if String.ofList table = VM_TABLE then do
      match ← (← (← uve.getKey "UveVirtualMachineAgent").getKey "interface_list").getItem 0 with
      | .str name => return parentName name.toList
      | _ => .error .AttributeError
    else .ok (parentName uve_name)
  match parent with
  | .ok fqname => .ok (some fqname)
  | .error .KeyError | .error .IndexError => .ok none
  | .error ex => .error ex

/-- What is read of the configuration of an alarm. -/
structure AlarmCfg where
  parent_type : String
  parent_fq_name_str : String
  alarm_rules : List (List AlarmCondition)

/-- An alarm that is configured under a project is for the UVEs of the project. -/
def evaluate_uve_for_alarms (alarm_cfg : AlarmCfg) (uve_key : String) (uve : JsonValue) :
    Except PyError (Option (List AlarmAndList)) := do
  let (table, uve_name) ← (splitFirst ':' uve_key.toList).elim (.error .ValueError) Except.ok
  if alarm_cfg.parent_type = "project" then
    if (← get_uve_parent_fqname table uve_name uve) ≠ some alarm_cfg.parent_fq_name_str then
      return none
  let or_list ← evaluate_or_list J dumps uve alarm_cfg.alarm_rules
  return if or_list.isEmpty then none else some or_list

/-- An alarm without a method of its own to evaluate it. -/
structure Alarm where
  is_enabled : Bool
  severity : Nat
  description : String
  config : AlarmCfg

/-- The alarm that is raised, if any. An exception raises it without rules. -/
def process_alarms (alarm_fqname : String) (alarm : Alarm) (uv : String) (local_uve : JsonValue) :
    Option UVEAlarmInfo :=
  let raised (or_list : Option (List AlarmAndList)) : UVEAlarmInfo :=
    ⟨alarm_fqname, alarm.severity, 0, "", ⟨or_list⟩, alarm.description, false⟩
  if !alarm.is_enabled then none
  else
    match evaluate_uve_for_alarms J dumps alarm.config uv local_uve with
    | .ok or_list => if or_list.getD [] = [] then none else some (raised or_list)
    | .error _ => some (raised none)

end

variable {J : Loads}

-- ---------------------------------------------------------------------------
-- The loops
-- ---------------------------------------------------------------------------

/-- A constant needs no path. -/
def Operand2Val.HasPath : Operand2Val → Prop
  | .json _ => True
  | .uve r => r.HasPath

theorem exists_foldlM_ok {σ α : Type} {f : σ → α → Except PyError σ}
    (h : ∀ s a, ∃ s', f s a = .ok s') (l : List α) (s : σ) : ∃ s', l.foldlM f s = .ok s' := by
  induction l generalizing s with
  | nil => exact ⟨s, rfl⟩
  | cons a l ih =>
    obtain ⟨s', hs'⟩ := h s a
    obtain ⟨s'', hs''⟩ := ih s'
    exact ⟨s'', by rw [List.foldlM_cons, hs']; exact hs''⟩

variable (dumps : JsonValue → String)

/-- A match is written down without an exception. -/
theorem exists_get_alarm_match {exp : AlarmCondition} {operand1_val : OperandVal}
    {operand2_val : Operand2Val} {v w : JsonValue} (h1 : operand1_val.value = .ok v)
    (hpath1 : operand1_val.HasPath) (h2 : operand2_val.value = .ok w)
    (hpath2 : operand2_val.HasPath) :
    ∃ m, get_alarm_match J dumps exp operand1_val operand2_val = .ok m := by
  have hvars : ∃ vars, get_json_variables J dumps exp operand1_val operand2_val = .ok vars := by
    obtain ⟨x, path, hx⟩ := hpath1
    refine exists_foldlM_ok (fun json_vars var => ?_) _ _
    cases operand2_val with
    | json c => exact ⟨_, by rw [hx]; rfl⟩
    | uve r =>
      obtain ⟨y, path', hy⟩ := hpath2
      dsimp only
      split
      · exact ⟨_, by rw [hx]; rfl⟩
      · exact ⟨_, by rw [hy]; rfl⟩
  obtain ⟨vars, hvars⟩ := hvars
  unfold get_alarm_match
  rw [hvars, h1]
  cases operand2_val with
  | json c => exact ⟨_, rfl⟩
  | uve r =>
    cases r with
    | none => cases h2
    | attr value uve_path status => exact ⟨_, rfl⟩
    | list elems => cases h2

/-- The code compares the two and does not raise. -/
def Fits (J : Loads) (operation : String) (pair : Place × Place) : Prop :=
  ∃ v w, shown J pair.1 = some v ∧ shown J pair.2 = some w ∧
    Comparable operation (J.decode v) (J.decode w)

/-- The comparison is true. -/
def Passes (J : Loads) (operation : String) (pair : Place × Place) : Prop :=
  ∃ v w, shown J pair.1 = some v ∧ shown J pair.2 = some w ∧
    Holds operation (J.decode v) (J.decode w)

/-- What the code has for a pair of places. -/
def ReadsPair (J : Loads) (vals : OperandVal × Operand2Val) (pair : Place × Place) : Prop :=
  Reads J vals.1.value vals.1.HasPath pair.1 ∧ Reads J vals.2.value vals.2.HasPath pair.2

theorem ReadsPair.of_fits {exp : AlarmCondition} {vals : OperandVal × Operand2Val}
    {pair : Place × Place} (hreads : ReadsPair J vals pair) (h : Fits J exp.operation pair) :
    ∃ v w b, vals.1.value = .ok v ∧ vals.2.value = .ok w ∧
      compare_operand_vals J v w exp.operation = .ok b ∧ (b = true ↔ Passes J exp.operation pair) ∧
      ∃ m, get_alarm_match J dumps exp vals.1 vals.2 = .ok m := by
  obtain ⟨v, w, hv, hw, hcomparable⟩ := h
  obtain ⟨h1, h2⟩ := hreads
  unfold Reads at h1 h2
  rw [hv] at h1
  rw [hw] at h2
  obtain ⟨b, hb, hiff⟩ := compare_spec hcomparable
  refine ⟨v, w, b, h1.1, h2.1, hb, hiff.trans ?_, exists_get_alarm_match dumps h1.1 h1.2 h2.1 h2.2⟩
  unfold Passes
  simp [hv, hw]

theorem ReadsPair.of_not_fits {operation : String} {vals : OperandVal × Operand2Val}
    {pair : Place × Place} (hreads : ReadsPair J vals pair) (h : ¬ Fits J operation pair) :
    ∃ e, (vals.1.value >>= fun v => vals.2.value >>= fun w =>
      compare_operand_vals J v w operation) = .error e := by
  obtain ⟨h1, h2⟩ := hreads
  unfold Reads at h1 h2
  cases hv : shown J pair.1 with
  | none =>
    rw [hv] at h1
    obtain ⟨e, he⟩ := h1
    exact ⟨e, by rw [he]; rfl⟩
  | some v =>
    rw [hv] at h1
    cases hw : shown J pair.2 with
    | none =>
      rw [hw] at h2
      obtain ⟨e, he⟩ := h2
      exact ⟨e, by rw [h1.1, he]; rfl⟩
    | some w =>
      rw [hw] at h2
      rw [h1.1, h2.1]
      exact compare_error fun hcomparable => h ⟨v, w, hv, hw, hcomparable⟩

/-- The loop raises no exception exactly when every pair fits, and then it finds the pairs that
pass. -/
theorem matchList_spec (exp : AlarmCondition) {vals : List (OperandVal × Operand2Val)}
    {pairs : List (Place × Place)} (hreads : List.Forall₂ (ReadsPair J) vals pairs) :
    ((∀ pair ∈ pairs, Fits J exp.operation pair) → ∃ ms, matchList J dumps exp vals = .ok ms ∧
      (ms ≠ [] ↔ ∃ pair ∈ pairs, Passes J exp.operation pair)) ∧
    ((∃ pair ∈ pairs, ¬ Fits J exp.operation pair) →
      ∃ e, matchList J dumps exp vals = .error e) := by
  induction hreads with
  | nil =>
    exact ⟨fun _ => ⟨[], rfl, by simp⟩, by simp⟩
  | @cons val pair vals pairs hpair _ ih =>
    obtain ⟨val1, val2⟩ := val
    by_cases hfits : Fits J exp.operation pair
    · obtain ⟨v, w, b, hv, hw, hb, hiff, m, hm⟩ := hpair.of_fits dumps hfits
      have hstep : matchList J dumps exp ((val1, val2) :: vals) =
          if b = true then (matchList J dumps exp vals).map (m :: ·)
          else matchList J dumps exp vals := by
        rw [matchList, hv, hw]
        change (compare_operand_vals J v w exp.operation >>= _) = _
        rw [hb]
        cases b with
        | false => rfl
        | true =>
          change (get_alarm_match J dumps exp val1 val2 >>= _) = _
          rw [hm]
          cases matchList J dumps exp vals <;> rfl
      rw [hstep]
      constructor
      · intro hall
        obtain ⟨ms, hms, hrest⟩ := ih.1 fun p hp => hall p (List.mem_cons_of_mem _ hp)
        rw [hms]
        cases b with
        | false =>
          have hnot : ¬ Passes J exp.operation pair := fun hpass =>
            Bool.false_ne_true (hiff.mpr hpass)
          exact ⟨ms, rfl, by simp only [hrest, List.mem_cons, exists_eq_or_imp, hnot, false_or]⟩
        | true => exact ⟨m :: ms, rfl, by simp [hiff.mp rfl]⟩
      · rintro ⟨p, hp, hnot⟩
        obtain ⟨e, he⟩ : ∃ e, matchList J dumps exp vals = .error e := by
          rcases List.mem_cons.mp hp with rfl | hmem
          · exact absurd hfits hnot
          · exact ih.2 ⟨p, hmem, hnot⟩
        rw [he]
        cases b <;> exact ⟨e, rfl⟩
    · refine ⟨fun hall => absurd (hall pair List.mem_cons_self) hfits, fun _ => ?_⟩
      obtain ⟨e, he⟩ := hpair.of_not_fits hfits
      refine ⟨e, ?_⟩
      rw [matchList]
      cases hv : val1.value with
      | error e' =>
        rw [hv] at he
        cases he
        rfl
      | ok v =>
        cases hw : val2.value with
        | error e' =>
          rw [hv, hw] at he
          cases he
          rfl
        | ok w =>
          rw [hv, hw] at he
          change (compare_operand_vals J v w exp.operation >>= _) = _
          rw [show compare_operand_vals J v w exp.operation = .error e from he]
          rfl

-- ---------------------------------------------------------------------------
-- One condition
-- ---------------------------------------------------------------------------

/-- The second operand of a condition: a constant is a path that has come to its end. -/
def place2 (J : Loads) (uve : JsonValue) (operand2 : AlarmOperand2) : Option Place :=
  match operand2.json_value with
  | some json_value => (J.loads json_value).map fun val => (val, [])
  | none => operand2.uve_attribute.map fun uve_attribute => (uve, splitDots uve_attribute)

/-- The pairs that are compared: of two paths that branch, the branches at the same places. -/
def comparedPairs (J : Loads) (p q : Place) : List (Place × Place) :=
  match forks J p, forks J q with
  | some bs, some cs => if bs.length = cs.length then bs.zip cs else []
  | some bs, none => bs.map (·, q)
  | none, some cs => cs.map (p, ·)
  | none, none => [(p, q)]

/-- A single comparison is a loop over one pair. -/
theorem matchList_singleton (exp : AlarmCondition) (val1 : OperandVal) (val2 : Operand2Val) :
    (do
      if ← compare_operand_vals J (← val1.value) (← val2.value) exp.operation then
        return some ⟨exp, [← get_alarm_match J dumps exp val1 val2]⟩
      else return none) =
      (matchList J dumps exp [(val1, val2)]).map (conditionMatch exp) := by
  rw [matchList]
  cases val1.value with
  | error e => rfl
  | ok v =>
    cases val2.value with
    | error e => rfl
    | ok w =>
      change (compare_operand_vals J v w exp.operation >>= _) =
        (compare_operand_vals J v w exp.operation >>= _).map _
      cases compare_operand_vals J v w exp.operation with
      | error e => rfl
      | ok b =>
        cases b with
        | false => rfl
        | true =>
          change (get_alarm_match J dumps exp val1 val2 >>= _) =
            (get_alarm_match J dumps exp val1 val2 >>= _).map _
          cases get_alarm_match J dumps exp val1 val2 <;> rfl

/-- What the code has for the second operand at a place. -/
structure Operand2Val.At (J : Loads) (val2 : Operand2Val) (q : Place) : Prop where
  failed_iff : val2.failed = true ↔ arrive J q.1 q.2 = .nothing
  reads : arrive J q.1 q.2 ≠ .nothing → Reads J val2.value val2.HasPath q
  returned : val2 = .json q.1 ∧ q.2 = [] ∨
    ∃ r, val2 = .uve r ∧ (arrive J q.1 q.2).Returned J [] r

theorem get_operand2_value_spec (J : Loads) (uve : JsonValue) (operand2 : AlarmOperand2) :
    match place2 J uve operand2 with
    | none => ∃ e, get_operand2_value J uve operand2 = .error e
    | some q => ∃ val2, get_operand2_value J uve operand2 = .ok val2 ∧ val2.At J q := by
  unfold place2 get_operand2_value
  cases operand2.json_value with
  | some json_value =>
    dsimp only
    cases hloads : J.loads json_value with
    | none => exact ⟨_, rfl⟩
    | some val =>
      have harrive : arrive J val [] = .value val := by rw [arrive]
      refine ⟨.json val, rfl, ?_, fun _ => ?_, Or.inl ⟨rfl, rfl⟩⟩
      · simp [Operand2Val.failed, harrive]
      · simp [Reads, shown, harrive, Operand2Val.value, Operand2Val.HasPath]
  | none =>
    dsimp only
    cases operand2.uve_attribute with
    | none => exact ⟨_, rfl⟩
    | some uve_attribute =>
      obtain ⟨a, attr_list, hsplit⟩ := splitDots_cons uve_attribute
      refine ⟨.uve (get_operand_value J uve uve_attribute), rfl, failed_iff, fun h => ?_,
        Or.inr ⟨_, rfl, returned_get_uve_attribute _ _ _⟩⟩
      change arrive J uve (splitDots uve_attribute) ≠ .nothing at h
      change Reads J (get_uve_attribute J uve (splitDots uve_attribute) []).value
        (get_uve_attribute J uve (splitDots uve_attribute) []).HasPath
        (uve, splitDots uve_attribute)
      rw [hsplit] at h ⊢
      exact reads_operand h

theorem ok_bind_map {α β : Type} (e : Except PyError α) (f : α → β) :
    (e >>= fun a => pure (f a)) = e.map f := by
  cases e <;> rfl

def Operand2Val.Single : Operand2Val → Prop
  | .json _ => True
  | .uve r => r.Single

theorem compare_lists (exp : AlarmCondition) {rs rs' : List OperandVal}
    (h : rs.length = rs'.length) :
    compare_operands J dumps exp (.list rs) (.uve (.list rs')) =
      (matchList J dumps exp (rs.zip (rs'.map .uve))).map (conditionMatch exp) := by
  rw [compare_operands, if_neg (not_not_intro h), ok_bind_map]

theorem compare_list_single (exp : AlarmCondition) (rs : List OperandVal) {val2 : Operand2Val}
    (h : val2.Single) :
    compare_operands J dumps exp (.list rs) val2 = (val2.value >>= fun _ =>
      (matchList J dumps exp (rs.map (·, val2))).map (conditionMatch exp)) := by
  rcases val2 with c | ⟨_ | _ | _⟩
  · simp only [compare_operands, ok_bind_map]
  · simp only [compare_operands, ok_bind_map]
  · simp only [compare_operands, ok_bind_map]
  · exact h.elim

theorem compare_single_list (exp : AlarmCondition) {val1 : OperandVal} (h : val1.Single)
    (rs : List OperandVal) :
    compare_operands J dumps exp val1 (.uve (.list rs)) =
      (matchList J dumps exp (rs.map (val1, .uve ·))).map (conditionMatch exp) := by
  rcases val1 with _ | _ | _
  · simp only [compare_operands, ok_bind_map]
  · simp only [compare_operands, ok_bind_map]
  · exact h.elim

theorem compare_singles (exp : AlarmCondition) {val1 : OperandVal} {val2 : Operand2Val}
    (h1 : val1.Single) (h2 : val2.Single) :
    compare_operands J dumps exp val1 val2 =
      (matchList J dumps exp [(val1, val2)]).map (conditionMatch exp) := by
  rw [← matchList_singleton]
  rcases val1 with _ | _ | _
  · rcases val2 with c | ⟨_ | _ | _⟩
    · rfl
    · rfl
    · rfl
    · exact h2.elim
  · rcases val2 with c | ⟨_ | _ | _⟩
    · rfl
    · rfl
    · rfl
    · exact h2.elim
  · exact h1.elim

theorem Operand2Val.At.list_or_single {q : Place} {val2 : Operand2Val} (h : val2.At J q) :
    (∃ branches rs, forks J q = some branches ∧ val2 = .uve (.list rs) ∧
      List.Forall₂ (fun r b => Reads J r.value r.HasPath b) rs branches) ∨
    forks J q = none ∧ val2.Single := by
  rcases h.returned with ⟨rfl, hnil⟩ | ⟨r, rfl, hreturned⟩
  · exact Or.inr ⟨by simp [forks, hnil, arrive], trivial⟩
  · rcases AlarmProcessor.list_or_single hreturned with
      ⟨branches, rs, hfork, rfl, hrs⟩ | ⟨hnot, hsingle⟩
    · exact Or.inl ⟨branches, rs, hfork, rfl, hrs⟩
    · exact Or.inr ⟨hnot, hsingle⟩

theorem forall₂_zip {rs rs' : List OperandVal} {bs cs : List Place}
    (h : List.Forall₂ (fun r b => Reads J r.value r.HasPath b) rs bs)
    (h' : List.Forall₂ (fun r b => Reads J r.value r.HasPath b) rs' cs) :
    List.Forall₂ (ReadsPair J) (rs.zip (rs'.map .uve)) (bs.zip cs) := by
  induction h generalizing rs' cs with
  | nil => simp
  | cons hr _ ih =>
    cases h' with
    | nil => simp
    | cons hr' hrest => exact .cons ⟨hr, hr'⟩ (ih hrest)

/-- The four branches are one loop over the pairs, unless the second operand has no value. -/
theorem compare_operands_spec (exp : AlarmCondition) {p q : Place} {val1 : OperandVal}
    {val2 : Operand2Val} (h1 : (arrive J p.1 p.2).Returned J [] val1)
    (hreads1 : Reads J val1.value val1.HasPath p) (h2 : val2.At J q)
    (hq : arrive J q.1 q.2 ≠ .nothing) :
    (∃ vals, List.Forall₂ (ReadsPair J) vals (comparedPairs J p q) ∧
      (arrive J q.1 q.2 = .beyond → (p, q) ∈ comparedPairs J p q) ∧
      compare_operands J dumps exp val1 val2 =
        (matchList J dumps exp vals).map (conditionMatch exp)) ∨
    arrive J q.1 q.2 = .beyond ∧ ∃ e, compare_operands J dumps exp val1 val2 = .error e := by
  have hreads2 := h2.reads hq
  have hnotBeyond (cs : List Place) (hcs : forks J q = some cs) : arrive J q.1 q.2 ≠ .beyond := by
    rintro hbeyond
    simp [forks, hbeyond] at hcs
  unfold comparedPairs
  rcases list_or_single h1 with ⟨bs, rs, hbs, rfl, hrs⟩ | ⟨hforks, h1⟩
  · rcases h2.list_or_single with ⟨cs, rs', hcs, rfl, hrs'⟩ | ⟨hforks', h2⟩
    · -- two lists
      refine Or.inl ?_
      rw [hbs, hcs]
      dsimp only
      by_cases hlength : rs.length = rs'.length
      · refine ⟨_, ?_, fun h => absurd h (hnotBeyond cs hcs), compare_lists dumps exp hlength⟩
        rw [if_pos (by rw [← hrs.length_eq, hlength, hrs'.length_eq])]
        exact forall₂_zip hrs hrs'
      · refine ⟨[], ?_, fun h => absurd h (hnotBeyond cs hcs), ?_⟩
        · rw [if_neg (by rwa [← hrs.length_eq, ← hrs'.length_eq])]
          exact .nil
        · rw [compare_operands, if_pos hlength]
          rfl
    · -- a list, whose results are compared with the one value of the second operand
      rw [hbs, hforks', compare_list_single dumps exp rs h2]
      cases hshown : shown J q with
      | none =>
        rw [Reads, hshown] at hreads2
        obtain ⟨e, he⟩ := hreads2
        exact Or.inr ⟨arrive_of_shown hforks' hshown, e, by rw [he]; rfl⟩
      | some w =>
        have hvalue := hreads2
        rw [Reads, hshown] at hvalue
        refine Or.inl ⟨rs.map (·, val2), ?_, fun h => ?_, by rw [hvalue.1]; rfl⟩
        swap
        · simp [shown, h] at hshown
        rw [List.forall₂_map_left_iff, List.forall₂_map_right_iff]
        exact hrs.imp fun r b hr => ⟨hr, hreads2⟩
  · rcases h2.list_or_single with ⟨cs, rs', hcs, rfl, hrs'⟩ | ⟨hforks', h2⟩
    · refine Or.inl ⟨_, ?_, fun h => absurd h (hnotBeyond cs hcs),
        compare_single_list dumps exp h1 rs'⟩
      rw [hforks, hcs, List.forall₂_map_left_iff, List.forall₂_map_right_iff]
      exact hrs'.imp fun r b hr => ⟨hreads1, hr⟩
    · refine Or.inl ⟨_, ?_, fun _ => by simp [hforks, hforks'], compare_singles dumps exp h1 h2⟩
      rw [hforks, hforks']
      exact .cons ⟨hreads1, hreads2⟩ .nil

/-- The condition is compared without an exception: no operand goes on behind a number or
branches twice, and the types go together. -/
structure Fitting (J : Loads) (operation : String) (p q : Place) : Prop where
  reached : arrive J q.1 q.2 ≠ .beyond
  fits : ∀ pair ∈ comparedPairs J p q, Fits J operation pair

theorem evaluate_exp_of_nothing {uve : JsonValue} {exp : AlarmCondition}
    (h : arrive J uve (splitDots exp.operand1) = .nothing) :
    evaluate_exp J dumps uve exp = .ok none := by
  unfold evaluate_exp get_operand_value
  rw [if_pos (failed_iff.mpr h)]
  rfl

theorem evaluate_exp_of_place2 {uve : JsonValue} {exp : AlarmCondition} {q : Place}
    (h : arrive J uve (splitDots exp.operand1) ≠ .nothing)
    (hplace : place2 J uve exp.operand2 = some q) :
    ∃ val2, evaluate_exp J dumps uve exp = (if val2.failed = true then .ok none else
        compare_operands J dumps exp (get_operand_value J uve exp.operand1) val2) ∧
      val2.At J q := by
  have hspec := get_operand2_value_spec J uve exp.operand2
  rw [hplace] at hspec
  obtain ⟨val2, hval2, hat⟩ := hspec
  refine ⟨val2, ?_, hat⟩
  have hfailed1 : (get_operand_value J uve exp.operand1).failed = false :=
    Bool.eq_false_iff.mpr fun hfail => h (failed_iff.mp hfail)
  simp only [evaluate_exp, hfailed1, Bool.false_eq_true, if_false, hval2]
  rfl

theorem evaluate_exp_of_none {uve : JsonValue} {exp : AlarmCondition}
    (h : arrive J uve (splitDots exp.operand1) ≠ .nothing)
    (hplace : place2 J uve exp.operand2 = none) :
    ∃ e, evaluate_exp J dumps uve exp = .error e := by
  have hspec := get_operand2_value_spec J uve exp.operand2
  rw [hplace] at hspec
  obtain ⟨e, he⟩ := hspec
  refine ⟨e, ?_⟩
  have hfailed1 : (get_operand_value J uve exp.operand1).failed = false :=
    Bool.eq_false_iff.mpr fun hfail => h (failed_iff.mp hfail)
  simp only [evaluate_exp, hfailed1, Bool.false_eq_true, if_false, he]
  rfl

theorem evaluate_exp_of_nothing₂ {uve : JsonValue} {exp : AlarmCondition} {q : Place}
    (h : arrive J uve (splitDots exp.operand1) ≠ .nothing)
    (hplace : place2 J uve exp.operand2 = some q) (hq : arrive J q.1 q.2 = .nothing) :
    evaluate_exp J dumps uve exp = .ok none := by
  obtain ⟨val2, heq, hat⟩ := evaluate_exp_of_place2 dumps h hplace
  rw [heq, if_pos (hat.failed_iff.mpr hq)]

/-- A condition that is compared raises no exception exactly when it fits, and then it is
matched when some pair passes. -/
theorem evaluate_exp_spec {uve : JsonValue} {exp : AlarmCondition} {q : Place}
    (h : arrive J uve (splitDots exp.operand1) ≠ .nothing)
    (hplace : place2 J uve exp.operand2 = some q) (hq : arrive J q.1 q.2 ≠ .nothing) :
    (Fitting J exp.operation (uve, splitDots exp.operand1) q →
      ∃ r, evaluate_exp J dumps uve exp = .ok r ∧ (r.isSome = true ↔
        ∃ pair ∈ comparedPairs J (uve, splitDots exp.operand1) q,
          Passes J exp.operation pair)) ∧
    (¬ Fitting J exp.operation (uve, splitDots exp.operand1) q →
      ∃ e, evaluate_exp J dumps uve exp = .error e) := by
  obtain ⟨val2, heq, hat⟩ := evaluate_exp_of_place2 dumps h hplace
  rw [if_neg fun hfail => hq (hat.failed_iff.mp hfail)] at heq
  have hreads1 : Reads J (get_operand_value J uve exp.operand1).value
      (get_operand_value J uve exp.operand1).HasPath (uve, splitDots exp.operand1) := by
    unfold get_operand_value
    obtain ⟨a, attr_list, hsplit⟩ := splitDots_cons exp.operand1
    rw [hsplit] at h ⊢
    exact reads_operand h
  rw [heq]
  rcases compare_operands_spec dumps exp
    (returned_get_uve_attribute uve (splitDots exp.operand1) []) hreads1 hat hq with
    ⟨vals, hvals, hbeyond, hcompare⟩ | ⟨hbeyond, herror⟩
  · obtain ⟨hok, herror⟩ := matchList_spec dumps exp hvals
    rw [hcompare]
    constructor
    · intro hfitting
      obtain ⟨ms, hms, hiff⟩ := hok hfitting.fits
      refine ⟨conditionMatch exp ms, by rw [hms]; rfl, ?_⟩
      rw [← hiff]
      cases ms <;> simp [conditionMatch]
    · -- behind a number the second operand shows nothing, and the pair does not fit
      intro hnot
      have hpair : ∃ pair ∈ comparedPairs J (uve, splitDots exp.operand1) q,
          ¬ Fits J exp.operation pair := by
        by_contra hall
        push Not at hall
        refine hnot ⟨fun hq' => ?_, hall⟩
        obtain ⟨v, w, -, hw, -⟩ := hall _ (hbeyond hq')
        simp [shown, hq'] at hw
      obtain ⟨e, he⟩ := herror hpair
      exact ⟨e, by rw [he]; rfl⟩
  · exact ⟨fun hfitting => absurd hbeyond hfitting.reached, fun _ => herror⟩

end TfAnalytics.OpServer.AlarmProcessor
