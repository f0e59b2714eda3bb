import TfAnalytics.OpServer.AlarmRules

/-!
# Alarm generator — which alarms the rules raise

A condition of an alarm rule is matched when values that its paths reach stand in its operation,
where of two paths that branch the branches at the same places go together (`Matched`).
`Evaluable` is exactly when the code decides a condition so: no result that is read is `None` or a
list, the types go together, and a branch that reaches nothing does not pass as null.

* `evaluate_exp_right_iff`: one condition;
* `evaluate_and_list_spec`, `evaluate_or_list_spec`: the lists, when each condition that is
  evaluated is evaluable;
* `evaluate_uve_for_alarms_exact`: the rules of an alarm;
* `process_alarms_raised_iff`: the alarm is raised when they are matched.
-/

namespace TfAnalytics.OpServer.AlarmProcessor

open TfAnalytics.Lib

variable {J : Loads} (dumps : JsonValue → String)

-- ---------------------------------------------------------------------------
-- Matched conditions
-- ---------------------------------------------------------------------------

/-- Values that the two paths reach stand in the operation. -/
def Meets (J : Loads) (operation : String) (pair : Place × Place) : Prop :=
  ∃ v w, Reaches J pair.1.1 pair.1.2 v ∧ Reaches J pair.2.1 pair.2.2 w ∧
    Holds operation (J.decode v) (J.decode w)

/-- Of two paths that branch, the branches at the same places go together. -/
def MatchedAt (J : Loads) (operation : String) (p q : Place) : Prop :=
  match forks J p, forks J q with
  | some bs, some cs => bs.length = cs.length ∧ ∃ pair ∈ bs.zip cs, Meets J operation pair
  | _, _ => Meets J operation (p, q)

/-- A condition is matched by a value that its path reaches. -/
def Matched (J : Loads) (uve : JsonValue) (exp : AlarmCondition) : Prop :=
  ∃ q, place2 J uve exp.operand2 = some q ∧
    MatchedAt J exp.operation (uve, splitDots exp.operand1) q

/-- A condition is matched by one of the pairs that are compared. -/
theorem matchedAt_iff {operation : String} {p q : Place} :
    MatchedAt J operation p q ↔ ∃ pair ∈ comparedPairs J p q, Meets J operation pair := by
  unfold MatchedAt comparedPairs
  cases hp : forks J p with
  | none =>
    cases hq : forks J q with
    | none => simp
    | some cs =>
      simp only [Meets, List.mem_map, exists_exists_and_eq_and, reaches_iff_of_forks hq]
      constructor
      · rintro ⟨v, w, hv, ⟨c, hc, hw⟩, hholds⟩
        exact ⟨c, hc, v, w, hv, hw, hholds⟩
      · rintro ⟨c, hc, v, w, hv, hw, hholds⟩
        exact ⟨v, w, hv, ⟨c, hc, hw⟩, hholds⟩
  | some bs =>
    cases hq : forks J q with
    | none =>
      simp only [Meets, List.mem_map, exists_exists_and_eq_and, reaches_iff_of_forks hp]
      constructor
      · rintro ⟨v, w, ⟨b, hb, hv⟩, hw, hholds⟩
        exact ⟨b, hb, v, w, hv, hw, hholds⟩
      · rintro ⟨b, hb, v, w, hv, hw, hholds⟩
        exact ⟨v, w, ⟨b, hb, hv⟩, hw, hholds⟩
    | some cs =>
      dsimp only
      split
      · next hlength => simp [hlength]
      · next hlength => simp [hlength]

theorem Meets.passes {operation : String} {pair : Place × Place}
    (h : Meets J operation pair) (hfits : Fits J operation pair) : Passes J operation pair := by
  obtain ⟨v, w, hv, hw, hholds⟩ := h
  obtain ⟨v', w', hv', hw', -⟩ := hfits
  obtain rfl := reaches_of_shown hv' hv
  obtain rfl := reaches_of_shown hw' hw
  exact ⟨v, w, hv', hw', hholds⟩

/-- One of the two reaches nothing, and is compared as null. -/
def Missing (J : Loads) (pair : Place × Place) : Prop :=
  arrive J pair.1.1 pair.1.2 = .nothing ∨ arrive J pair.2.1 pair.2.2 = .nothing

theorem Passes.meets {operation : String} {pair : Place × Place}
    (h : Passes J operation pair) (hpresent : ¬ Missing J pair) : Meets J operation pair := by
  obtain ⟨v, w, hv, hw, hholds⟩ := h
  obtain ⟨h1, h2⟩ := not_or.mp hpresent
  exact ⟨v, w, reaches_shown hv h1, reaches_shown hw h2, hholds⟩

theorem Meets.present {operation : String} {pair : Place × Place}
    (h : Meets J operation pair) : ¬ Missing J pair := by
  obtain ⟨v, w, hv, hw, -⟩ := h
  rintro (hnothing | hnothing)
  · exact not_reaches_of_nothing hnothing v hv
  · exact not_reaches_of_nothing hnothing w hw

/-- The condition fits, and no branch that reaches nothing passes as null on its own. -/
structure Regular (J : Loads) (operation : String) (p q : Place) : Prop
    extends Fitting J operation p q where
  nulls : ∀ pair ∈ comparedPairs J p q, Missing J pair → Passes J operation pair →
    MatchedAt J operation p q

/-- The condition is read as the rule says: an operand reaches nothing, or the comparison is
regular. -/
def Evaluable (J : Loads) (uve : JsonValue) (exp : AlarmCondition) : Prop :=
  arrive J uve (splitDots exp.operand1) = .nothing ∨
  ∃ q, place2 J uve exp.operand2 = some q ∧
    (arrive J q.1 q.2 = .nothing ∨ Regular J exp.operation (uve, splitDots exp.operand1) q)

theorem not_matchedAt_of_nothing {operation : String} {p q : Place}
    (h : arrive J p.1 p.2 = .nothing ∨ arrive J q.1 q.2 = .nothing) :
    ¬ MatchedAt J operation p q := by
  have hforks : forks J p = none ∨ forks J q = none :=
    h.imp (fun h => by simp [forks, h]) (fun h => by simp [forks, h])
  have hmeets : MatchedAt J operation p q → Meets J operation (p, q) := by
    unfold MatchedAt
    rcases hforks with hnone | hnone
    · rw [hnone]
      exact id
    · rw [hnone]
      cases forks J p <;> exact id
  exact fun hmatched => (hmeets hmatched).present h

/-- A condition is evaluated without an exception and rightly exactly when it is evaluable. -/
theorem evaluate_exp_right_iff {uve : JsonValue} {exp : AlarmCondition} :
    (∃ r, evaluate_exp J dumps uve exp = .ok r ∧ (r.isSome = true ↔ Matched J uve exp)) ↔
      Evaluable J uve exp := by
  unfold Evaluable Matched
  by_cases h : arrive J uve (splitDots exp.operand1) = .nothing
  · refine ⟨fun _ => Or.inl h, fun _ => ⟨none, evaluate_exp_of_nothing dumps h, ?_⟩⟩
    simp [not_matchedAt_of_nothing (p := (uve, splitDots exp.operand1)) (Or.inl h)]
  cases hplace : place2 J uve exp.operand2 with
  | none =>
    obtain ⟨e, he⟩ := evaluate_exp_of_none dumps h hplace
    simp [he, h]
  | some q =>
    by_cases hq : arrive J q.1 q.2 = .nothing
    · refine ⟨fun _ => Or.inr ⟨q, rfl, Or.inl hq⟩, fun _ =>
        ⟨none, evaluate_exp_of_nothing₂ dumps h hplace hq, ?_⟩⟩
      simp [not_matchedAt_of_nothing (p := (uve, splitDots exp.operand1)) (Or.inr hq)]
    obtain ⟨hfitting, hnot⟩ := evaluate_exp_spec dumps h hplace hq
    simp only [h, Option.some.injEq, exists_eq_left', hq, false_or]
    by_cases hfit : Fitting J exp.operation (uve, splitDots exp.operand1) q
    · obtain ⟨r, hr, hiff⟩ := hfitting hfit
      rw [hr]
      constructor
      · rintro ⟨r', hr', hiff'⟩
        obtain rfl : r = r' := Except.ok.inj hr'
        exact ⟨hfit, fun pair hpair _ hpass => hiff'.mp (hiff.mpr ⟨pair, hpair, hpass⟩)⟩
      · intro hregular
        refine ⟨r, rfl, hiff.trans ⟨?_, fun hmatched => ?_⟩⟩
        · rintro ⟨pair, hpair, hpass⟩
          by_cases hmissing : Missing J pair
          · exact hregular.nulls pair hpair hmissing hpass
          · exact matchedAt_iff.mpr ⟨pair, hpair, hpass.meets hmissing⟩
        · obtain ⟨pair, hpair, hmeets⟩ := matchedAt_iff.mp hmatched
          exact ⟨pair, hpair, hmeets.passes (hfit.fits pair hpair)⟩
    · obtain ⟨e, he⟩ := hnot hfit
      rw [he]
      constructor
      · rintro ⟨r, hr, -⟩
        cases hr
      · exact fun hregular => absurd hregular.toFitting hfit

-- ---------------------------------------------------------------------------
-- The rules of an alarm
-- ---------------------------------------------------------------------------

/-- Every condition that is evaluated is evaluable: one behind a condition that is not matched
is not. -/
def ListEvaluable (J : Loads) (uve : JsonValue) : List AlarmCondition → Prop
  | [] => True
  | exp :: cfg_and_list =>
    Evaluable J uve exp ∧ (Matched J uve exp → ListEvaluable J uve cfg_and_list)

theorem evaluate_and_list_spec {uve : JsonValue} {cfg_and_list : List AlarmCondition}
    (h : ListEvaluable J uve cfg_and_list) :
    ∃ r, evaluate_and_list J dumps uve cfg_and_list = .ok r ∧
      (r.isSome = true ↔ ∀ exp ∈ cfg_and_list, Matched J uve exp) := by
  induction cfg_and_list with
  | nil => exact ⟨some [], rfl, by simp⟩
  | cons exp cfg_and_list ih =>
    obtain ⟨hexp, hrest⟩ := h
    obtain ⟨r, hr, hiff⟩ := (evaluate_exp_right_iff dumps).mpr hexp
    rw [evaluate_and_list, hr]
    cases r with
    | none =>
      refine ⟨none, rfl, ?_⟩
      have hnot : ¬ Matched J uve exp := fun hmatched =>
        Bool.false_ne_true (hiff.mpr hmatched)
      simp [hnot]
    | some condition =>
      have hmatched := hiff.mp rfl
      obtain ⟨r', hr', hiff'⟩ := ih (hrest hmatched)
      refine ⟨r'.map (condition :: ·), ?_, ?_⟩
      · change (evaluate_and_list J dumps uve cfg_and_list >>= _) = _
        rw [hr']
        rfl
      · rw [Option.isSome_map, hiff', List.forall_mem_cons]
        simp [hmatched]

theorem evaluate_or_list_spec {uve : JsonValue} {cfg_or_list : List (List AlarmCondition)}
    (h : ∀ cfg_and_list ∈ cfg_or_list, ListEvaluable J uve cfg_and_list) :
    ∃ or_list, evaluate_or_list J dumps uve cfg_or_list = .ok or_list ∧
      (or_list ≠ [] ↔ ∃ cfg_and_list ∈ cfg_or_list, ∀ exp ∈ cfg_and_list, Matched J uve exp) := by
  induction cfg_or_list with
  | nil => exact ⟨[], rfl, by simp⟩
  | cons cfg_and_list cfg_or_list ih =>
    obtain ⟨hlist, hrest⟩ := List.forall_mem_cons.mp h
    obtain ⟨r, hr, hiff⟩ := evaluate_and_list_spec dumps hlist
    obtain ⟨or_list, hor, hiff'⟩ := ih hrest
    rw [evaluate_or_list, hr]
    cases r with
    | none =>
      refine ⟨or_list, hor, ?_⟩
      have hnot : ¬ ∀ exp ∈ cfg_and_list, Matched J uve exp := fun hall =>
        Bool.false_ne_true (hiff.mpr hall)
      rw [List.exists_mem_cons_iff, hiff']
      simp only [hnot, false_or]
    | some and_list =>
      refine ⟨⟨and_list⟩ :: or_list, ?_, ?_⟩
      · change (evaluate_or_list J dumps uve cfg_or_list >>= _) = _
        rw [hor]
        rfl
      · exact iff_of_true (by simp) ⟨cfg_and_list, List.mem_cons_self, hiff.mp rfl⟩

/-- The first interface of a virtual machine is a text, where there is an interface. -/
def ParentReadable (table : List Char) (uve : JsonValue) : Prop :=
  String.ofList table = VM_TABLE →
    ∃ items, uve = .dict items ∧ ∀ agent, items.lookup "UveVirtualMachineAgent" = some agent →
      ∃ attrs, agent = .dict attrs ∧ ∀ interfaces, attrs.lookup "interface_list" = some interfaces →
        (∃ names, interfaces = .dict names) ∨ (∃ name, interfaces = .str name) ∨
        ∃ names, interfaces = .list names ∧ ∀ v ∈ names.head?, ∃ name, v = .str name

theorem exists_get_uve_parent_fqname {table : List Char} (uve_name : List Char) {uve : JsonValue}
    (h : ParentReadable table uve) :
    ∃ parent, get_uve_parent_fqname table uve_name uve = .ok parent := by
  unfold get_uve_parent_fqname
  by_cases htable : String.ofList table = VM_TABLE
  swap
  · exact ⟨_, by rw [if_neg htable]⟩
  obtain ⟨items, rfl, hagent⟩ := h htable
  simp only [if_pos htable, JsonValue.getKey]
  cases hlookup : items.lookup "UveVirtualMachineAgent" with
  | none => exact ⟨none, rfl⟩
  | some agent =>
    obtain ⟨attrs, rfl, hinterfaces⟩ := hagent agent hlookup
    simp only [Option.elim_some]
    cases hlist : attrs.lookup "interface_list" with
    | none => exact ⟨none, by simp [hlist, bind, Except.bind]⟩
    | some interfaces =>
      rcases hinterfaces interfaces hlist with ⟨names, rfl⟩ | ⟨name, rfl⟩ | ⟨names, rfl, hhead⟩
      · exact ⟨none, by simp [hlist, JsonValue.getItem, bind, Except.bind]⟩
      · cases hname : name.toList with
        | nil => exact ⟨none, by simp [hlist, hname, JsonValue.getItem, bind, Except.bind]⟩
        | cons c cs =>
          refine ⟨some (parentName [c]), ?_⟩
          simp [hlist, hname, JsonValue.getItem, bind, Except.bind, pure, Except.pure]
      · cases names with
        | nil => exact ⟨none, by simp [hlist, JsonValue.getItem, bind, Except.bind]⟩
        | cons v names =>
          obtain ⟨name, rfl⟩ := hhead v rfl
          refine ⟨some (parentName name.toList), ?_⟩
          simp [hlist, JsonValue.getItem, bind, Except.bind, pure, Except.pure]

/-- The alarm is not one of another project. -/
def AppliesTo (alarm_cfg : AlarmCfg) (table uve_name : List Char) (uve : JsonValue) : Prop :=
  alarm_cfg.parent_type = "project" →
    get_uve_parent_fqname table uve_name uve = .ok (some alarm_cfg.parent_fq_name_str)

section

variable {alarm_cfg : AlarmCfg} {uve_key : String} {table uve_name : List Char} {uve : JsonValue}

theorem evaluate_of_appliesTo (hkey : splitFirst ':' uve_key.toList = some (table, uve_name))
    (happlies : AppliesTo alarm_cfg table uve_name uve)
    (hrules : ∀ cfg_and_list ∈ alarm_cfg.alarm_rules, ListEvaluable J uve cfg_and_list) :
    ∃ or_list, evaluate_uve_for_alarms J dumps alarm_cfg uve_key uve = .ok or_list ∧
      ((∃ l, or_list = some l ∧ l ≠ []) ↔
        ∃ cfg_and_list ∈ alarm_cfg.alarm_rules, ∀ exp ∈ cfg_and_list, Matched J uve exp) := by
  obtain ⟨or_list, hor, hiff⟩ := evaluate_or_list_spec dumps hrules
  refine ⟨if or_list.isEmpty then none else some or_list, ?_, ?_⟩
  · unfold evaluate_uve_for_alarms
    rw [hkey]
    by_cases hproject : alarm_cfg.parent_type = "project"
    · simp [hproject, happlies hproject, hor, bind, Except.bind, pure, Except.pure]
    · simp [hproject, hor, bind, Except.bind, pure, Except.pure]
  · rw [← hiff]
    cases or_list <;> simp

theorem evaluate_of_not_appliesTo (hkey : splitFirst ':' uve_key.toList = some (table, uve_name))
    (hparent : alarm_cfg.parent_type = "project" → ParentReadable table uve)
    (hnot : ¬ AppliesTo alarm_cfg table uve_name uve) :
    evaluate_uve_for_alarms J dumps alarm_cfg uve_key uve = .ok none := by
  obtain ⟨hproject, hother⟩ := Classical.not_imp.mp hnot
  obtain ⟨parent, hget⟩ := exists_get_uve_parent_fqname uve_name (hparent hproject)
  have hne : parent ≠ some alarm_cfg.parent_fq_name_str := fun hsame => hother (hsame ▸ hget)
  unfold evaluate_uve_for_alarms
  rw [hkey]
  simp [hproject, hget, hne, bind, Except.bind, pure, Except.pure]

/-- The rules of an alarm are evaluated without an exception, and there is a match exactly when
the alarm is for the UVE and every condition of one of its AND lists is matched. -/
theorem evaluate_uve_for_alarms_exact (J : Loads) (dumps : JsonValue → String)
    (alarm_cfg : AlarmCfg) (uve : JsonValue)
    (hkey : splitFirst ':' uve_key.toList = some (table, uve_name))
    (hparent : alarm_cfg.parent_type = "project" → ParentReadable table uve)
    (hrules : AppliesTo alarm_cfg table uve_name uve →
      ∀ cfg_and_list ∈ alarm_cfg.alarm_rules, ListEvaluable J uve cfg_and_list) :
    ∃ or_list, evaluate_uve_for_alarms J dumps alarm_cfg uve_key uve = .ok or_list ∧
      ((∃ l, or_list = some l ∧ l ≠ []) ↔ AppliesTo alarm_cfg table uve_name uve ∧
        ∃ cfg_and_list ∈ alarm_cfg.alarm_rules, ∀ exp ∈ cfg_and_list, Matched J uve exp) := by
  by_cases happlies : AppliesTo alarm_cfg table uve_name uve
  · obtain ⟨or_list, hor, hiff⟩ := evaluate_of_appliesTo dumps hkey happlies (hrules happlies)
    exact ⟨or_list, hor, hiff.trans (and_iff_right happlies).symm⟩
  · exact ⟨none, evaluate_of_not_appliesTo dumps hkey hparent happlies, by simp [happlies]⟩

/-- The texts of JSON below. -/
def constantLoads : Loads where
  loads s := if s = "5" then some (.num 5) else if s = "\"up\"" then some (.str "up") else none
  shrinks := by
    intro s v h
    split at h
    · next hs =>
      obtain rfl := Option.some.inj h
      subst hs
      decide
    · split at h
      · next hs =>
        obtain rfl := Option.some.inj h
        subst hs
        decide
      · cases h

def vnUve : JsonValue :=
  .dict [("n", .num 3), ("A", .dict [("p", .dict [("state", .str "up")]),
    ("q", .dict [("state", .str "down")])])]

def vnCondition : AlarmCondition := ⟨"<", "n", ⟨none, some "5"⟩, []⟩

def stateCondition : AlarmCondition := ⟨"!=", "A.*.state", ⟨none, some "\"up\""⟩, ["A.__key"]⟩

def vnAlarm : AlarmCfg :=
  ⟨"project", "default-domain:admin",
    [[⟨"==", "x.y", ⟨none, some "5"⟩, []⟩], [vnCondition, stateCondition]]⟩

theorem vnCondition_matched : Evaluable constantLoads vnUve vnCondition ∧
    Matched constantLoads vnUve vnCondition := by
  have hn : arrive constantLoads vnUve (splitDots "n") = .value (.num 3) := by
    rw [show splitDots "n" = ["n"] by decide, vnUve]
    simp [arrive]
  have hconst (v : JsonValue) : arrive constantLoads v [] = .value v := by simp [arrive]
  constructor
  · refine Or.inr ⟨(.num 5, []), rfl, Or.inr ⟨⟨by simp [hconst], ?_⟩, ?_⟩⟩
    · simp only [comparedPairs, forks, vnCondition, hn, hconst, List.forall_mem_singleton]
      exact ⟨.num 3, .num 5, by simp [shown, hn], by simp [shown, hconst],
        Or.inr (Or.inr ⟨.lt, rfl⟩)⟩
    · simp [comparedPairs, forks, vnCondition, hn, hconst, Missing]
  · refine ⟨(.num 5, []), rfl, ?_⟩
    simp only [MatchedAt, forks, vnCondition, hn, hconst]
    refine ⟨.num 3, .num 5, ?_, .here _, Or.inr rfl⟩
    rw [reaches_iff_arrive, hn]
    rfl

theorem stateCondition_matched : Evaluable constantLoads vnUve stateCondition ∧
    Matched constantLoads vnUve stateCondition := by
  have hstate : arrive constantLoads vnUve (splitDots "A.*.state") =
      .fork [(.dict [("state", .str "up")], ["state"]),
        (.dict [("state", .str "down")], ["state"])] := by
    rw [show splitDots "A.*.state" = ["A", "*", "state"] by decide, vnUve]
    simp [arrive, List.lookup_cons]
  have hattr (s : String) :
      arrive constantLoads (.dict [("state", .str s)]) ["state"] = .value (.str s) := by
    simp [arrive]
  have hconst (v : JsonValue) : arrive constantLoads v [] = .value v := by simp [arrive]
  constructor
  · refine Or.inr ⟨(.str "up", []), rfl, Or.inr ⟨⟨by simp [hconst], ?_⟩, ?_⟩⟩
    · have hoperation : operationOf "!=" = some .ne := rfl
      simp [comparedPairs, forks, stateCondition, hstate, hconst, Fits, shown, hattr, Comparable,
        hoperation]
    · simp [comparedPairs, forks, stateCondition, hstate, hconst, Missing, hattr]
  · refine ⟨(.str "up", []), rfl, ?_⟩
    simp only [MatchedAt, forks, stateCondition, hstate, hconst]
    refine ⟨.str "down", .str "up", ?_, .here _, show JsonValue.eq _ _ = false by decide⟩
    rw [reaches_iff_arrive, hstate]
    refine ⟨(.dict [("state", .str "down")], ["state"]), by simp, ?_⟩
    rw [reaches_iff_arrive, hattr]
    rfl

theorem evaluate_uve_for_alarms_sample : ∃ l,
    evaluate_uve_for_alarms constantLoads (fun _ => "") vnAlarm
      "ObjectVNTable:default-domain:admin:vn1" vnUve = .ok (some l) ∧ l ≠ [] := by
  have hx : arrive constantLoads vnUve (splitDots "x.y") = .nothing := by
    rw [show splitDots "x.y" = ["x", "y"] by decide, vnUve]
    simp [arrive, List.lookup_cons]
  have hkey : splitFirst ':' "ObjectVNTable:default-domain:admin:vn1".toList =
      some ("ObjectVNTable".toList, "default-domain:admin:vn1".toList) := by decide
  obtain ⟨or_list, hor, hiff⟩ := evaluate_uve_for_alarms_exact constantLoads (fun _ => "") vnAlarm
    vnUve hkey (fun _ htable => absurd htable (by decide)) fun _ => by
      simp only [vnAlarm, List.forall_mem_cons, ListEvaluable]
      exact ⟨⟨Or.inl hx, fun _ => trivial⟩,
        ⟨vnCondition_matched.1, fun _ => ⟨stateCondition_matched.1, fun _ => trivial⟩⟩,
        List.forall_mem_nil _⟩
  obtain ⟨l, hl, hne⟩ := hiff.mpr ⟨fun _ => by rfl, _,
    List.mem_cons_of_mem _ List.mem_cons_self, by
      simp only [List.forall_mem_cons]
      exact ⟨vnCondition_matched.2, stateCondition_matched.2, List.forall_mem_nil _⟩⟩
  exact ⟨l, hl ▸ hor, hne⟩

def twoLists : JsonValue :=
  .dict [("A", .dict [("p", .num 1), ("q", .num 2)]), ("B", .dict [("p", .num 2), ("q", .num 1)])]

/-- The alarm of another project, whose condition is matched; an attribute that is not there,
which counts as null; and two paths that reach the same values at different places. -/
theorem not_exact_for_every_alarm :
    (Matched constantLoads vnUve vnCondition ∧
      evaluate_uve_for_alarms constantLoads (fun _ => "")
        ⟨"project", "default-domain:demo", [[vnCondition]]⟩
        "ObjectVNTable:default-domain:admin:vn1" vnUve = .ok none) ∧
    ((∀ items, vnUve = .dict items → items.lookup "x" = none) ∧
      ∃ l, evaluate_uve_for_alarms constantLoads (fun _ => "")
        ⟨"global-system-config", "default-global-system-config",
          [[⟨"!=", "x", ⟨none, some "5"⟩, []⟩]]⟩
        "ObjectVNTable:default-domain:admin:vn1" vnUve = .ok (some l)) ∧
    (Reaches constantLoads twoLists ["A", "*"] (.num 1) ∧
      Reaches constantLoads twoLists ["B", "*"] (.num 1) ∧
      evaluate_uve_for_alarms constantLoads (fun _ => "")
        ⟨"global-system-config", "default-global-system-config",
          [[⟨"==", "A.*", ⟨some "B.*", none⟩, []⟩]]⟩
        "ObjectVNTable:default-domain:admin:vn1" twoLists = .ok none) := by
  refine ⟨⟨vnCondition_matched.2, rfl⟩, ⟨?_, ?_⟩, ?_, ?_, ?_⟩
  · rintro items hitems
    obtain rfl := JsonValue.dict.inj hitems
    decide
  · have hget : get_operand_value constantLoads vnUve "x" = .attr .null [("x", .null)] true := by
      rw [get_operand_value, show splitDots "x" = ["x"] by decide, vnUve]
      simp [get_uve_attribute, List.lookup_cons]
    obtain ⟨c, hc⟩ : ∃ c, evaluate_exp constantLoads (fun _ => "") vnUve
        ⟨"!=", "x", ⟨none, some "5"⟩, []⟩ = .ok (some c) := by
      rw [evaluate_exp, hget]
      exact ⟨_, rfl⟩
    refine ⟨[⟨[c]⟩], ?_⟩
    simp [evaluate_uve_for_alarms, evaluate_or_list, evaluate_and_list, hc, bind, Except.bind, pure,
      Except.pure]
    rfl
  · exact .attr (by decide) (show Reaches _ (.dict [("p", .num 1), ("q", .num 2)]) _ _ from
      .wild (Or.inl rfl) List.mem_cons_self (.here _))
  · exact .attr (by decide) (show Reaches _ (.dict [("p", .num 2), ("q", .num 1)]) _ _ from
      .wild (Or.inl rfl) (List.mem_cons_of_mem _ List.mem_cons_self) (.here _))
  · have hexp : evaluate_exp constantLoads (fun _ => "") twoLists
        ⟨"==", "A.*", ⟨some "B.*", none⟩, []⟩ = .ok none := by
      simp only [evaluate_exp, get_operand_value, get_operand2_value, twoLists,
        show splitDots "A.*" = ["A", "*"] by decide, show splitDots "B.*" = ["B", "*"] by decide]
      simp [get_uve_attribute, List.lookup_cons]
      rfl
    simp [evaluate_uve_for_alarms, evaluate_or_list, evaluate_and_list, hexp, bind, Except.bind,
      pure, Except.pure]
    rfl

/-- The alarm is raised when it is enabled, is for the UVE, and has an AND list all of whose
conditions are matched. -/
theorem process_alarms_raised_iff {alarm : Alarm} (alarm_fqname : String)
    (hkey : splitFirst ':' uve_key.toList = some (table, uve_name))
    (hparent : alarm.config.parent_type = "project" → ParentReadable table uve)
    (hrules : AppliesTo alarm.config table uve_name uve →
      ∀ cfg_and_list ∈ alarm.config.alarm_rules, ListEvaluable J uve cfg_and_list) :
    (process_alarms J dumps alarm_fqname alarm uve_key uve).isSome = true ↔
      alarm.is_enabled = true ∧ AppliesTo alarm.config table uve_name uve ∧
        ∃ cfg_and_list ∈ alarm.config.alarm_rules, ∀ exp ∈ cfg_and_list, Matched J uve exp := by
  unfold process_alarms
  cases alarm.is_enabled with
  | false => simp
  | true =>
    by_cases happlies : AppliesTo alarm.config table uve_name uve
    · obtain ⟨or_list, hor, hiff⟩ :=
        evaluate_of_appliesTo dumps hkey happlies (hrules happlies)
      rw [hor, ← hiff]
      cases or_list with
      | none => simp
      | some or_list => simp [happlies]
    · rw [evaluate_of_not_appliesTo dumps hkey hparent happlies]
      simp [happlies]

end

end TfAnalytics.OpServer.AlarmProcessor
