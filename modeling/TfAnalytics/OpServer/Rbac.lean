import Mathlib.Data.List.Dedup

/-!
# Analytics API — RBAC for queries

`opserver.py`: in RBAC mode `check_perms_and_update_where_clause` restricts the
query of a user who is not cloud admin to the objects that the configuration
API lists for them. `update_where_clause` writes the restriction into the WHERE
of the request.

A WHERE is a disjunction of clauses, a clause a conjunction of conditions. The
inner lists of the request are changed in place while the conditions collected
from them are gone through, so the loop carries the WHERE along.

* `update_where_clause_eq`: what the rewrite does, case by case;
* `confined_iff`: exactly when a query ends up rejected or confined.
-/

namespace TfAnalytics.OpServer

-- ---------------------------------------------------------------------------
-- Requests
-- ---------------------------------------------------------------------------

/-- A JSON value in a condition. -/
inductive Value where
  | str (s : String)
  | num (n : Int)
  | null
  deriving DecidableEq

/-- `if value:`. -/
def Value.truthy : Value → Bool
  | .str s => s != ""
  | .num n => n != 0
  | .null => false

structure Suffix where
  name : String
  value : Value
  op : Int
  value2 : Option Value
  deriving DecidableEq

/-- A condition of a WHERE clause; keys the request may lack are optional. -/
structure Condition where
  name : String
  value : Value
  op : Int
  value2 : Option Value := none
  suffix : Option (Option Suffix) := none
  deriving DecidableEq

abbrev Clause := List Condition

/-- `request.json['where']`, if the request has it. -/
abbrev Where := List Clause

namespace MatchOp

def EQUAL : Int := 1
def NOT_EQUAL : Int := 2
def IN_RANGE : Int := 3
def NOT_IN_RANGE : Int := 4
def LEQ : Int := 5
def GEQ : Int := 6
def PREFIX : Int := 7
def REGEX_MATCH : Int := 8
def CONTAINS : Int := 9

end MatchOp

/-- `bottle.HTTPResponse`. -/
structure HTTPResponse where
  status : Nat
  body : String
  headers : List (String × String)
  deriving DecidableEq

/-- What a handler may raise. -/
inductive Exn where
  | response (r : HTTPResponse)
  | TypeError
  | KeyError
  | IndexError
  deriving DecidableEq

def _reject_auth_headers (auth_uri : String) : List (String × String) :=
  [("WWW-Authenticate", "Keystone uri='" ++ auth_uri ++ "'")]

def forbidden (auth_uri : String) : Exn :=
  .response ⟨403, "Operation Forbidden", _reject_auth_headers auth_uri⟩

-- ---------------------------------------------------------------------------
-- update_where_clause
-- ---------------------------------------------------------------------------

/-- `obj_value.startswith(value)`. -/
def startswith (obj_value value : String) : Bool := value.toList.isPrefixOf obj_value.toList

/-- The condition in a new clause. -/
def newCondition (name obj_value : String) : Condition :=
  { name := name, value := .str obj_value, op := MatchOp.EQUAL }

/-- The conditions on `name`, each with the number of its clause. -/
def nameConditions (name : String) (where_clause_list : Where) : List (Nat × Condition) :=
  where_clause_list.zipIdx.flatMap fun p =>
    (p.1.filter fun and_query => and_query.name == name).map fun and_query => (p.2, and_query)

/-- `name_where_clause`, or none when a condition has an empty value. -/
def name_where_clause (name : String) (where_clause_list : Where) :
    Option (List (Nat × Condition)) :=
  if (nameConditions name where_clause_list).all (fun p => p.2.value.truthy) then
    some (nameConditions name where_clause_list)
  else none

/-- The lists the loop changes. Each new clause is a single condition. -/
structure Rewrite where
  new_clause_list : List Condition
  where_clause_list : Where

/-- A condition matched: add the new clause, and take the condition out. -/
def Rewrite.replace (r : Rewrite) (new_clause : Condition) (p : Nat × Condition) : Rewrite where
  new_clause_list :=
    if new_clause ∈ r.new_clause_list then r.new_clause_list else r.new_clause_list ++ [new_clause]
  where_clause_list := r.where_clause_list.modify p.1 fun clause => clause.erase p.2

/-- One condition against one permitted object. -/
def matchCondition (auth_uri name : String) (obj_list : List String) (obj_value : String)
    (r : Rewrite) (p : Nat × Condition) : Except Exn Rewrite :=
  let and_query := p.2
  if and_query.op = MatchOp.PREFIX then
    match and_query.value with
    | .str value =>
      if startswith obj_value value then .ok (r.replace (newCondition name obj_value) p) else .ok r
    | _ => .error .TypeError
  else if and_query.op = MatchOp.EQUAL then
    if and_query.value ∉ obj_list.map Value.str then .error (forbidden auth_uri)
    else if Value.str obj_value = and_query.value then
      .ok (r.replace (newCondition name obj_value) p)
    else .ok r
  else .ok r

/-- One permitted object. -/
def addObject (auth_uri name : String) (obj_list : List String)
    (conditions : List (Nat × Condition)) (r : Rewrite) (obj_value : String) :
    Except Exn Rewrite :=
  if conditions.length = 0 then
    .ok { r with new_clause_list := r.new_clause_list ++ [newCondition name obj_value] }
  else conditions.foldlM (matchCondition auth_uri name obj_list obj_value) r

/-- An existing clause with a new one. Only the first condition of the existing
clause is kept. -/
def addClause (existing_clause : Clause) (final : Where) (new_clause : Condition) : Where :=
  match existing_clause with
  | [] => final ++ [[new_clause]]
  | first :: _ => if [first, new_clause] ∈ final then final else final ++ [[first, new_clause]]

def final_clause_list (r : Rewrite) : Where :=
  r.where_clause_list.foldl
    (fun final existing_clause => r.new_clause_list.foldl (addClause existing_clause) final) []

/-- `update_where_clause`; the result is the WHERE that the request has then. -/
def update_where_clause (auth_uri : String) (where_clause : Option Where) (obj_list : List String)
    (name : String) (pfx : Option String) : Except Exn (Option Where) :=
  let where_clause_list := where_clause.getD []
  match name_where_clause name where_clause_list with
  | none => .ok where_clause
  | some conditions =>
    let obj_list := match pfx with
      | some pfx => if pfx = "" then obj_list else obj_list.map fun obj => pfx ++ obj
      | none => obj_list
    (obj_list.foldlM (addObject auth_uri name obj_list conditions) ⟨[], where_clause_list⟩).map
      fun r =>
        if r.where_clause_list.length = 0 then some (r.new_clause_list.map fun c => [c])
        else if r.new_clause_list.length > 0 then some (final_clause_list r)
        else some r.where_clause_list

-- ---------------------------------------------------------------------------
-- check_perms_and_update_where_clause
-- ---------------------------------------------------------------------------

inductive AaaMode where
  | noAuth | cloudAdmin | rbac
  deriving DecidableEq

structure Column where
  name : String
  index : Bool
  uve_type : Option String

structure QueryTable where
  name : String
  type : String
  columns : List Column

/-- What the handlers read of the server. The two dictionaries are association
lists. -/
structure Server where
  aaa_mode : AaaMode
  aaa_auth_enabled : Bool
  auth_uri : String
  ObjectLogTypeToConfigObjectType : List (String × String)
  UveTypeToConfigObjectType : List (String × String)
  VIRTUAL_TABLES : List QueryTable

/-- `bottle.request`, as `validate_user_token` leaves it. -/
structure Caller where
  /-- `bottle.request.app == bottle.app()`. -/
  default_app : Bool
  is_role_cloud_admin : Bool
  user_token : String

/-- The answers of the configuration API: the resources of a type that a token
may see, each with its `fq_name`, and whether a token has any permissions. -/
structure VncApi where
  get_resource_list : String → String → Option (List (String × List (List String)))
  get_user_token_info : String → Except Exn Bool

section

variable (S : Server) (caller : Caller) (vnc : VncApi)

def Server.is_role_cloud_admin : Bool :=
  if S.aaa_auth_enabled && caller.default_app then caller.is_role_cloud_admin else true

/-- `user_accessible_resources`. The iteration order of a set is not specified;
here it is that of the answer, which is any. -/
def user_accessible_resources (res_list : List (String × List (List String))) : List String :=
  (res_list.flatMap fun resources => resources.2.map fun fq_name => String.intercalate ":" fq_name).dedup

def Server.get_resource_list (cfg_type : String) : Except Exn (Option (List String)) :=
  if S.aaa_mode = .rbac ∧ caller.default_app = true then
    if cfg_type = "null" then .error (forbidden S.auth_uri)
    else .ok ((vnc.get_resource_list cfg_type caller.user_token).map user_accessible_resources)
  else .ok none

def Server.get_uve_cfg_type (uve_type : String) : String :=
  (S.UveTypeToConfigObjectType.lookup uve_type).getD "null"

/-- The type a UVE column restricts, if it is one. -/
def Column.restricts (column : Column) : Option String :=
  match column.uve_type with
  | some uve_type =>
    if column.index && uve_type != "" && (S.UveTypeToConfigObjectType.lookup uve_type).isSome then
      some uve_type
    else none
  | none => none

/-- The loop over the columns of a stat table; also returns `found_uve_type`. -/
def Server.statColumns : List Column → Option Where → Bool → Except Exn (Bool × Option Where)
  | [], where_clause, found_uve_type => .ok (found_uve_type, where_clause)
  | column :: columns, where_clause, found_uve_type =>
    match column.restricts S with
    | none => Server.statColumns columns where_clause found_uve_type
    | some uve_type => do
      match ← S.get_resource_list caller vnc (S.get_uve_cfg_type uve_type) with
      | none => Server.statColumns columns where_clause true
      | some [] => .ok (true, some [])
      | some cfg_obj_list => do
        let where_clause ← update_where_clause S.auth_uri where_clause cfg_obj_list column.name none
        Server.statColumns columns where_clause true

/-- The default clause of the list of object or stat tables. -/
def default_clause (value : String) : Clause :=
  [{ name := "name", value := .str value, op := MatchOp.PREFIX }]

/-- The stat tables with a UVE column, once for each such column. -/
def Server.statTables : List String :=
  (S.VIRTUAL_TABLES.filter fun table => table.type == "STAT").flatMap fun table =>
    (table.columns.filter fun column => match column.uve_type with
      | some uve_type => (S.UveTypeToConfigObjectType.lookup uve_type).isSome
      | none => false).map fun _ => table.name

/-- The end of `check_perms_and_update_where_clause`, for what no branch dealt
with. -/
def Server.checkOthers (where_clause : Option Where) (tabl : String) :
    Except Exn (Option Where) := do
  let perms ←
    if tabl ∈ ["StatTable.EndpointSecurityStats.eps.server",
        "StatTable.EndpointSecurityStats.eps.client"] then
      vnc.get_user_token_info caller.user_token
    else .ok false
  if perms then .ok where_clause else .error (forbidden S.auth_uri)

/-- `check_perms_and_update_where_clause`; the result is the WHERE that the
request has then. -/
def Server.check_perms_and_update_where_clause (where_clause : Option Where) (tabl : String)
    (tabn : Option Nat) : Except Exn (Option Where) :=
  if S.is_role_cloud_admin caller then .ok where_clause
  else if S.aaa_mode ≠ .rbac then .error (forbidden S.auth_uri)
  else
    match S.ObjectLogTypeToConfigObjectType.lookup tabl with
    | some cfg_type => do
      match ← S.get_resource_list caller vnc cfg_type with
      | none => .ok where_clause
      | some cfg_obj_list =>
        update_where_clause S.auth_uri where_clause cfg_obj_list "ObjectId" none
    | none =>
      if tabl = "StatTable.FieldNames.fields" then
        match where_clause with
        | none => .error .KeyError
        | some [] => .error .IndexError
        | some (first :: _) =>
          if first = default_clause "OBJECT" then
            update_where_clause S.auth_uri where_clause
              (S.ObjectLogTypeToConfigObjectType.map Prod.fst) "name" (some "OBJECT:")
          else if first = default_clause "STAT" then
            update_where_clause S.auth_uri where_clause S.statTables "name" (some "STAT:")
          else S.checkOthers caller vnc where_clause tabl
      else if startswith tabl "StatTable." then
        match tabn.bind (S.VIRTUAL_TABLES[·]?) with
        | none => .error .TypeError
        | some table => do
          let (found_uve_type, where_clause) ← S.statColumns caller vnc table.columns where_clause false
          if found_uve_type then .ok where_clause
          else S.checkOthers caller vnc where_clause tabl
      else S.checkOthers caller vnc where_clause tabl

end

-- ---------------------------------------------------------------------------
-- What a WHERE admits
-- ---------------------------------------------------------------------------

/-- A stored row, by column name. -/
abbrev Row := String → String

/-- How the query engine reads conditions. All that the rewrite relies on is the
meaning of `EQUAL` with a string. -/
structure Semantics where
  sat : Condition → Row → Prop
  equal : ∀ (name value : String) (row : Row), sat (newCondition name value) row ↔ row name = value

/-- A list of clauses is a disjunction of conjunctions; without a WHERE every
row is admitted. -/
def Semantics.Admits (sem : Semantics) : Option Where → Row → Prop
  | none, _ => True
  | some clauses, row => ∃ clause ∈ clauses, ∀ c ∈ clause, sem.sat c row

/-- Every row that gets through has a permitted name. -/
def Semantics.Confines (sem : Semantics) (name : String) (permitted : List String)
    (where_clause : Option Where) : Prop :=
  ∀ row, sem.Admits where_clause row → row name ∈ permitted

/-- Rejected with 403, or confined. -/
def Semantics.Safe (sem : Semantics) (name : String) (permitted : List String) :
    Except Exn (Option Where) → Prop
  | .error (.response r) => r.status = 403
  | .error _ => False
  | .ok where_clause => sem.Confines name permitted where_clause

theorem confines_of_newCondition (sem : Semantics) {name : String} {permitted : List String}
    {clauses : Where}
    (h : ∀ clause ∈ clauses, ∃ p ∈ permitted, newCondition name p ∈ clause) :
    sem.Confines name permitted (some clauses) := by
  intro row ⟨clause, hclause, hsat⟩
  obtain ⟨p, hp, hmem⟩ := h clause hclause
  rw [(sem.equal name p row).mp (hsat _ hmem)]
  exact hp

-- ---------------------------------------------------------------------------
-- The loop
-- ---------------------------------------------------------------------------

/-- A value, unless there is an exception. -/
def unlessFault {ε σ : Type} (fault : Option ε) (s : σ) : Except ε σ :=
  match fault with
  | some e => .error e
  | none => .ok s

/-- The exception a condition leads to, whatever object it is held against. -/
def Condition.fault (auth_uri : String) (obj_list : List String) (c : Condition) : Option Exn :=
  if c.op = MatchOp.PREFIX then
    match c.value with
    | .str _ => none
    | _ => some .TypeError
  else if c.op = MatchOp.EQUAL ∧ c.value ∉ obj_list.map Value.str then some (forbidden auth_uri)
  else none

/-- A condition that lets an object in. -/
def Condition.accepts (c : Condition) (obj_value : String) : Bool :=
  if c.op = MatchOp.PREFIX then
    match c.value with
    | .str value => startswith obj_value value
    | _ => false
  else c.op = MatchOp.EQUAL ∧ Value.str obj_value = c.value

theorem matchCondition_eq (auth_uri name : String) (obj_list : List String) (obj_value : String)
    (r : Rewrite) (p : Nat × Condition) :
    matchCondition auth_uri name obj_list obj_value r p =
      unlessFault (p.2.fault auth_uri obj_list)
        (if p.2.accepts obj_value then r.replace (newCondition name obj_value) p else r) := by
  unfold matchCondition Condition.fault Condition.accepts unlessFault
  by_cases hpre : p.2.op = MatchOp.PREFIX
  · simp only [if_pos hpre]
    cases p.2.value with
    | str value =>
      simp only
      split <;> rfl
    | num n => rfl
    | null => rfl
  · simp only [if_neg hpre]
    by_cases heq : p.2.op = MatchOp.EQUAL
    · by_cases hmem : p.2.value ∈ obj_list.map Value.str
      · by_cases hval : Value.str obj_value = p.2.value
        · simp [heq, hval, hmem]
        · simp [heq, hval, hmem]
      · simp [heq, hmem]
    · simp [heq]

/-- A loop whose exceptions depend on the elements alone. -/
theorem foldlM_of_fault {σ α ε : Type} {f : σ → α → Except ε σ} {fault : α → Option ε}
    {g : σ → α → σ}
    (h : ∀ s a, f s a = unlessFault (fault a) (g s a)) (l : List α) (s : σ) :
    l.foldlM f s = unlessFault (l.findSome? fault) (l.foldl g s) := by
  induction l generalizing s with
  | nil => rfl
  | cons a l ih =>
    rw [List.foldlM_cons, h s a, List.findSome?_cons]
    cases fault a with
    | some e => rfl
    | none => exact ih (g s a)

/-- The first exception in the list of conditions. -/
def firstFault (auth_uri : String) (obj_list : List String) (conditions : List (Nat × Condition)) :
    Option Exn :=
  conditions.findSome? fun p => p.2.fault auth_uri obj_list

/-- One object, when no condition leads to an exception. -/
def Rewrite.add (name : String) (conditions : List (Nat × Condition)) (r : Rewrite)
    (obj_value : String) : Rewrite :=
  if conditions.length = 0 then
    { r with new_clause_list := r.new_clause_list ++ [newCondition name obj_value] }
  else
    conditions.foldl (fun r p =>
      if p.2.accepts obj_value then r.replace (newCondition name obj_value) p else r) r

theorem addObject_eq (auth_uri name : String) (obj_list : List String)
    (conditions : List (Nat × Condition)) (r : Rewrite) (obj_value : String) :
    addObject auth_uri name obj_list conditions r obj_value =
      unlessFault (firstFault auth_uri obj_list conditions) (r.add name conditions obj_value) := by
  unfold addObject Rewrite.add
  split
  · rename_i hlen
    rw [List.eq_nil_of_length_eq_zero hlen]
    rfl
  · exact foldlM_of_fault (matchCondition_eq auth_uri name obj_list obj_value) conditions r

/-- The whole loop. Without objects no condition is looked at. -/
theorem foldlM_addObject (auth_uri name : String) (obj_list : List String)
    (conditions : List (Nat × Condition)) (r : Rewrite) (l : List String) :
    l.foldlM (addObject auth_uri name obj_list conditions) r =
      unlessFault (if l = [] then none else firstFault auth_uri obj_list conditions)
        (l.foldl (Rewrite.add name conditions) r) := by
  rw [foldlM_of_fault (addObject_eq auth_uri name obj_list conditions) l r]
  have hconst : l.findSome? (fun _ => firstFault auth_uri obj_list conditions) =
      if l = [] then none else firstFault auth_uri obj_list conditions := by
    cases l with
    | nil => rfl
    | cons a l =>
      rw [List.findSome?_cons, if_neg (List.cons_ne_nil _ _)]
      cases hfault : firstFault auth_uri obj_list conditions with
      | some e => rfl
      | none =>
        refine List.findSome?_eq_none_iff.mpr fun _ _ => rfl
  rw [hconst]

theorem Rewrite.mem_replace {r : Rewrite} {c d : Condition} {p : Nat × Condition} :
    d ∈ (r.replace c p).new_clause_list ↔ d ∈ r.new_clause_list ∨ d = c := by
  unfold Rewrite.replace
  split
  · rename_i hmem
    exact ⟨Or.inl, fun h => h.elim id fun heq => heq ▸ hmem⟩
  · rw [List.mem_append, List.mem_singleton]

/-- The new clauses after one object. -/
theorem Rewrite.mem_add {name : String} {conditions : List (Nat × Condition)} {r : Rewrite}
    {obj_value : String} {d : Condition} :
    d ∈ (r.add name conditions obj_value).new_clause_list ↔
      d ∈ r.new_clause_list ∨ d = newCondition name obj_value ∧
        (conditions = [] ∨ ∃ p ∈ conditions, p.2.accepts obj_value = true) := by
  unfold Rewrite.add
  split
  · rename_i hlen
    rw [List.mem_append, List.mem_singleton]
    simp [List.eq_nil_of_length_eq_zero hlen]
  · rename_i hlen
    have hne : conditions ≠ [] := fun heq => hlen (by rw [heq]; rfl)
    have hloop : ∀ (l : List (Nat × Condition)) (r : Rewrite),
        d ∈ (l.foldl (fun r p => if p.2.accepts obj_value then
          r.replace (newCondition name obj_value) p else r) r).new_clause_list ↔
        d ∈ r.new_clause_list ∨ d = newCondition name obj_value ∧
          ∃ p ∈ l, p.2.accepts obj_value = true := by
      intro l
      induction l with
      | nil => simp
      | cons p l ih =>
        intro r
        rw [List.foldl_cons, ih]
        split
        · rename_i hacc
          rw [Rewrite.mem_replace]
          simp only [List.mem_cons, exists_eq_or_imp, hacc, true_or, and_true]
          tauto
        · rename_i hacc
          simp [hacc]
    rw [hloop]
    simp [hne]

/-- The loop over all objects. -/
def rewriteAll (name : String) (conditions : List (Nat × Condition)) (obj_list : List String)
    (where_clause_list : Where) : Rewrite :=
  obj_list.foldl (Rewrite.add name conditions) ⟨[], where_clause_list⟩

theorem mem_rewriteAll {name : String} {conditions : List (Nat × Condition)}
    {obj_list : List String} {where_clause_list : Where} {d : Condition} :
    d ∈ (rewriteAll name conditions obj_list where_clause_list).new_clause_list ↔
      ∃ obj ∈ obj_list, d = newCondition name obj ∧
        (conditions = [] ∨ ∃ p ∈ conditions, p.2.accepts obj = true) := by
  have hloop : ∀ (l : List String) (r : Rewrite),
      d ∈ (l.foldl (Rewrite.add name conditions) r).new_clause_list ↔
        d ∈ r.new_clause_list ∨ ∃ obj ∈ l, d = newCondition name obj ∧
          (conditions = [] ∨ ∃ p ∈ conditions, p.2.accepts obj = true) := by
    intro l
    induction l with
    | nil => simp
    | cons obj l ih =>
      intro r
      rw [List.foldl_cons, ih, Rewrite.mem_add]
      simp only [List.mem_cons, exists_eq_or_imp, or_assoc]
  unfold rewriteAll
  rw [hloop]
  simp

/-- The lists of the request are only touched when there is a new clause, and
none of them goes away. -/
structure Rewrite.From (where_clause_list : Where) (r : Rewrite) : Prop where
  length : r.where_clause_list.length = where_clause_list.length
  untouched : r.new_clause_list = [] → r.where_clause_list = where_clause_list

theorem Rewrite.From.replace {w : Where} {r : Rewrite} (h : r.From w) (c : Condition)
    (p : Nat × Condition) : (r.replace c p).From w := by
  refine ⟨?_, fun hnil => ?_⟩
  · exact (List.length_modify ..).trans h.length
  · have hmem : c ∈ (r.replace c p).new_clause_list := Rewrite.mem_replace.mpr (Or.inr rfl)
    rw [hnil] at hmem
    cases hmem

theorem Rewrite.From.add {w : Where} {r : Rewrite} (h : r.From w) (name : String)
    (conditions : List (Nat × Condition)) (obj_value : String) :
    (r.add name conditions obj_value).From w := by
  unfold Rewrite.add
  split
  · exact ⟨h.length, fun hnil => absurd hnil (by simp)⟩
  · refine List.foldlRecOn (motive := fun r => Rewrite.From w r) conditions _ h fun r hr p _ => ?_
    split
    · exact hr.replace _ _
    · exact hr

theorem rewriteAll_from (name : String) (conditions : List (Nat × Condition))
    (obj_list : List String) (w : Where) : (rewriteAll name conditions obj_list w).From w :=
  List.foldlRecOn (motive := fun r => Rewrite.From w r) obj_list _ ⟨rfl, fun _ => rfl⟩
    fun _ hr obj _ => hr.add name conditions obj

theorem mem_addClause {existing_clause : Clause} {final : Where} {new_clause : Condition}
    {clause : Clause} (h : clause ∈ addClause existing_clause final new_clause) :
    clause ∈ final ∨ new_clause ∈ clause := by
  unfold addClause at h
  split at h
  · rcases List.mem_append.mp h with h | h
    · exact Or.inl h
    · rw [List.mem_singleton.mp h]
      exact Or.inr (List.mem_singleton.mpr rfl)
  · split at h
    · exact Or.inl h
    · rcases List.mem_append.mp h with h | h
      · exact Or.inl h
      · rw [List.mem_singleton.mp h]
        exact Or.inr (by simp)

/-- Every clause of the new WHERE has one of the new conditions. -/
theorem mem_final_clause_list {r : Rewrite} {clause : Clause} (h : clause ∈ final_clause_list r) :
    ∃ c ∈ r.new_clause_list, c ∈ clause := by
  revert clause
  refine List.foldlRecOn
    (motive := fun final => ∀ {clause : Clause}, clause ∈ final → ∃ c ∈ r.new_clause_list, c ∈ clause)
    r.where_clause_list _ (fun h => by cases h) fun final hfinal existing _ => ?_
  refine List.foldlRecOn
    (motive := fun final => ∀ {clause : Clause}, clause ∈ final → ∃ c ∈ r.new_clause_list, c ∈ clause)
    r.new_clause_list _ hfinal fun final hfinal c hc => ?_
  intro clause h
  rcases mem_addClause h with h | h
  · exact hfinal h
  · exact ⟨c, hc, h⟩

-- ---------------------------------------------------------------------------
-- Confinement
-- ---------------------------------------------------------------------------

/-- No condition on `name` has an empty value. -/
def NoEmptyValue (name : String) (w : Where) : Prop :=
  ∀ p ∈ nameConditions name w, p.2.value.truthy = true

theorem name_where_clause_eq (name : String) (w : Where) :
    (NoEmptyValue name w ∧ name_where_clause name w = some (nameConditions name w)) ∨
      (¬ NoEmptyValue name w ∧ name_where_clause name w = none) := by
  unfold name_where_clause NoEmptyValue
  split
  · rename_i hall
    exact Or.inl ⟨List.all_eq_true.mp hall, rfl⟩
  · rename_i hall
    exact Or.inr ⟨fun h => hall (List.all_eq_true.mpr h), rfl⟩

/-- Some permitted object passes the conditions on `name`: there are none, or one
accepts it. -/
def SomeAccepted (name : String) (permitted : List String) (w : Where) : Prop :=
  ∃ obj ∈ permitted, nameConditions name w = [] ∨
    ∃ p ∈ nameConditions name w, p.2.accepts obj = true

/-- What `update_where_clause` leaves in the request or raises. -/
theorem update_where_clause_eq (auth_uri : String) (where_clause : Option Where)
    (permitted : List String) (name : String) :
    (¬ NoEmptyValue name (where_clause.getD []) ∧
      update_where_clause auth_uri where_clause permitted name none = .ok where_clause) ∨
    (NoEmptyValue name (where_clause.getD []) ∧
      update_where_clause auth_uri where_clause permitted name none =
        (unlessFault (if permitted = [] then none
          else firstFault auth_uri permitted (nameConditions name (where_clause.getD [])))
          (rewriteAll name (nameConditions name (where_clause.getD [])) permitted
            (where_clause.getD []))).map fun r =>
          if r.where_clause_list.length = 0 then some (r.new_clause_list.map fun c => [c])
          else if r.new_clause_list.length > 0 then some (final_clause_list r)
          else some r.where_clause_list) := by
  unfold update_where_clause
  rcases name_where_clause_eq name (where_clause.getD []) with ⟨hvalues, heq⟩ | ⟨hvalues, heq⟩
  · refine Or.inr ⟨hvalues, ?_⟩
    simp only [heq]
    rw [foldlM_addObject]
    rfl
  · refine Or.inl ⟨hvalues, ?_⟩
    simp only [heq]

/-- A condition leads to 403 or to a `TypeError`. -/
theorem firstFault_cases {auth_uri : String} {obj_list : List String}
    {conditions : List (Nat × Condition)} {e : Exn}
    (h : firstFault auth_uri obj_list conditions = some e) :
    e = forbidden auth_uri ∨ e = .TypeError := by
  obtain ⟨p, -, hp⟩ := List.exists_of_findSome?_eq_some h
  unfold Condition.fault at hp
  split at hp
  · split at hp
    · cases hp
    · exact Or.inr (Option.some.inj hp).symm
  · split at hp
    · exact Or.inl (Option.some.inj hp).symm
    · cases hp

/-- The conditions under which the restriction takes hold: there is no WHERE to
begin with; or no condition on `name` is empty, and either one of them asks for
what is not permitted, or they accept something that is. -/
def Restrictable (auth_uri name : String) (permitted : List String) (w : Where) : Prop :=
  w = [] ∨
    NoEmptyValue name w ∧
      ((permitted ≠ [] ∧
          firstFault auth_uri permitted (nameConditions name w) = some (forbidden auth_uri)) ∨
        (firstFault auth_uri permitted (nameConditions name w) = none ∧
          SomeAccepted name permitted w))

/-- A prefix condition whose value is not a string comes first. -/
def TypeFault (auth_uri name : String) (permitted : List String) (w : Where) : Prop :=
  NoEmptyValue name w ∧ permitted ≠ [] ∧
    firstFault auth_uri permitted (nameConditions name w) = some .TypeError

theorem safe_forbidden (sem : Semantics) (name : String) (permitted : List String)
    (auth_uri : String) : sem.Safe name permitted (.error (forbidden auth_uri)) := rfl

/-- The WHERE that the rewrite builds. -/
theorem confines_rewritten (sem : Semantics) (name : String) (permitted : List String)
    (conditions : List (Nat × Condition)) (w : Where) :
    sem.Confines name permitted
        (some ((rewriteAll name conditions permitted w).new_clause_list.map fun c => [c])) ∧
      sem.Confines name permitted
        (some (final_clause_list (rewriteAll name conditions permitted w))) := by
  constructor
  · refine confines_of_newCondition sem fun clause hclause => ?_
    obtain ⟨c, hc, rfl⟩ := List.mem_map.mp hclause
    obtain ⟨obj, hobj, rfl, -⟩ := mem_rewriteAll.mp hc
    exact ⟨obj, hobj, List.mem_singleton.mpr rfl⟩
  · refine confines_of_newCondition sem fun clause hclause => ?_
    obtain ⟨c, hc, hmem⟩ := mem_final_clause_list hclause
    obtain ⟨obj, hobj, rfl, -⟩ := mem_rewriteAll.mp hc
    exact ⟨obj, hobj, hmem⟩

theorem rewriteAll_new_ne_nil {name : String} {permitted : List String} {w : Where} :
    (rewriteAll name (nameConditions name w) permitted w).new_clause_list ≠ [] ↔
      SomeAccepted name permitted w := by
  constructor
  · intro hne
    obtain ⟨d, hd⟩ := List.exists_mem_of_ne_nil _ hne
    obtain ⟨obj, hobj, -, hacc⟩ := mem_rewriteAll.mp hd
    exact ⟨obj, hobj, hacc⟩
  · rintro ⟨obj, hobj, hacc⟩
    exact List.ne_nil_of_mem (mem_rewriteAll.mpr ⟨obj, hobj, rfl, hacc⟩)

/-- The rewrite went through without an exception. -/
theorem safe_rewritten_iff (sem : Semantics) {auth_uri name : String} {permitted : List String}
    {where_clause : Option Where}
    (hvalues : NoEmptyValue name (where_clause.getD []))
    (hfault : permitted = [] ∨
      firstFault auth_uri permitted (nameConditions name (where_clause.getD [])) = none) :
    sem.Safe name permitted (.ok
      (let r := rewriteAll name (nameConditions name (where_clause.getD [])) permitted
        (where_clause.getD [])
      if r.where_clause_list.length = 0 then some (r.new_clause_list.map fun c => [c])
      else if r.new_clause_list.length > 0 then some (final_clause_list r)
      else some r.where_clause_list)) ↔
      Restrictable auth_uri name permitted (where_clause.getD []) ∨
        sem.Confines name permitted where_clause := by
  have hfrom := rewriteAll_from name (nameConditions name (where_clause.getD [])) permitted
    (where_clause.getD [])
  have hconf := confines_rewritten sem name permitted
    (nameConditions name (where_clause.getD [])) (where_clause.getD [])
  simp only [hfrom.length]
  split
  · rename_i hlen
    exact ⟨fun _ => Or.inl (Or.inl (List.eq_nil_of_length_eq_zero hlen)), fun _ => hconf.1⟩
  rename_i hlen
  split
  · rename_i hnew
    have hacc := rewriteAll_new_ne_nil.mp (List.ne_nil_of_length_pos hnew)
    have hperm : permitted ≠ [] := by
      obtain ⟨obj, hobj, -⟩ := hacc
      exact List.ne_nil_of_mem hobj
    have hnone := hfault.resolve_left hperm
    exact ⟨fun _ => Or.inl (Or.inr ⟨hvalues, Or.inr ⟨hnone, hacc⟩⟩), fun _ => hconf.2⟩
  · rename_i hnew
    have hnil : (rewriteAll name (nameConditions name (where_clause.getD [])) permitted
      (where_clause.getD [])).new_clause_list = [] := List.eq_nil_of_length_eq_zero (by omega)
    rw [hfrom.untouched hnil]
    cases where_clause with
    | none => exact absurd rfl hlen
    | some w =>
      refine ⟨Or.inr, ?_⟩
      rintro ((hw | ⟨-, ⟨hne, hforb⟩ | ⟨-, hacc⟩⟩) | hconf)
      · exact absurd (by rw [hw]; rfl) hlen
      · rw [hfault.resolve_left hne] at hforb
        cases hforb
      · exact absurd hnil (rewriteAll_new_ne_nil.mpr hacc)
      · exact hconf

/-- Exactly when `update_where_clause` rejects or confines. -/
theorem safe_update_where_clause_iff (sem : Semantics) (auth_uri : String)
    (where_clause : Option Where) (permitted : List String) (name : String) :
    sem.Safe name permitted (update_where_clause auth_uri where_clause permitted name none) ↔
      Restrictable auth_uri name permitted (where_clause.getD []) ∨
        (sem.Confines name permitted where_clause ∧
          ¬ TypeFault auth_uri name permitted (where_clause.getD [])) := by
  rcases update_where_clause_eq auth_uri where_clause permitted name with
    ⟨hvalues, heq⟩ | ⟨hvalues, heq⟩
  · rw [heq]
    constructor
    · exact fun h => Or.inr ⟨h, fun hfault => hvalues hfault.1⟩
    · rintro ((hw | ⟨hvalues', -⟩) | ⟨hconf, -⟩)
      · exact absurd (fun p hp => by rw [hw] at hp; cases hp) hvalues
      · exact absurd hvalues' hvalues
      · exact hconf
  rw [heq]
  by_cases hfault : permitted = [] ∨
      firstFault auth_uri permitted (nameConditions name (where_clause.getD [])) = none
  · have hnone : (if permitted = [] then none
        else firstFault auth_uri permitted (nameConditions name (where_clause.getD []))) = none := by
      split
      · rfl
      · exact hfault.resolve_left ‹_›
    have hno : ¬ TypeFault auth_uri name permitted (where_clause.getD []) := by
      rintro ⟨-, hne, htype⟩
      rw [hfault.resolve_left hne] at htype
      cases htype
    rw [hnone]
    refine (safe_rewritten_iff sem hvalues hfault).trans (or_congr_right ?_)
    exact ⟨fun h => ⟨h, hno⟩, fun h => h.1⟩
  · obtain ⟨hne, hsome⟩ := not_or.mp hfault
    obtain ⟨e, he⟩ := Option.ne_none_iff_exists'.mp hsome
    rw [if_neg hne, he]
    rcases firstFault_cases he with rfl | rfl
    · exact ⟨fun _ => Or.inl (Or.inr ⟨hvalues, Or.inl ⟨hne, he⟩⟩), fun _ => safe_forbidden ..⟩
    · refine ⟨False.elim, ?_⟩
      rintro ((hw | ⟨-, ⟨-, hforb⟩ | ⟨hnone, -⟩⟩) | ⟨-, hno⟩)
      · rw [hw] at he
        cases he
      · rw [he] at hforb
        cases hforb
      · exact hsome hnone
      · exact hno ⟨hvalues, hne, he⟩

/-- Queries on an object-log table by a user who is not cloud admin, in RBAC
mode: exactly when the request is rejected with 403 or left with a WHERE that
admits permitted objects only. -/
theorem confined_iff (sem : Semantics) (S : Server) (caller : Caller) (vnc : VncApi)
    (where_clause : Option Where) (tabl : String) (tabn : Option Nat) {cfg_type : String}
    {res_list : List (String × List (List String))} (hmode : S.aaa_mode = .rbac)
    (hadmin : S.is_role_cloud_admin caller = false)
    (htabl : S.ObjectLogTypeToConfigObjectType.lookup tabl = some cfg_type)
    (hres : vnc.get_resource_list cfg_type caller.user_token = some res_list) :
    sem.Safe "ObjectId" (user_accessible_resources res_list)
        (S.check_perms_and_update_where_clause caller vnc where_clause tabl tabn) ↔
      cfg_type = "null" ∨
        Restrictable S.auth_uri "ObjectId" (user_accessible_resources res_list)
          (where_clause.getD []) ∨
        (sem.Confines "ObjectId" (user_accessible_resources res_list) where_clause ∧
          ¬ TypeFault S.auth_uri "ObjectId" (user_accessible_resources res_list)
            (where_clause.getD [])) := by
  have hdefault : caller.default_app = true := by
    unfold Server.is_role_cloud_admin at hadmin
    split at hadmin
    · rename_i hboth
      exact (Bool.and_eq_true_iff.mp hboth).2
    · cases hadmin
  have hlist : S.get_resource_list caller vnc cfg_type =
      if cfg_type = "null" then .error (forbidden S.auth_uri)
      else .ok (some (user_accessible_resources res_list)) := by
    unfold Server.get_resource_list
    rw [if_pos ⟨hmode, hdefault⟩, hres]
    rfl
  unfold Server.check_perms_and_update_where_clause
  simp only [hadmin, Bool.false_eq_true, if_false, hmode, ne_eq, not_true_eq_false, htabl, hlist]
  by_cases hnull : cfg_type = "null"
  · rw [if_pos hnull]
    exact ⟨fun _ => Or.inl hnull, fun _ => safe_forbidden ..⟩
  · rw [if_neg hnull]
    refine (safe_update_where_clause_iff sem S.auth_uri where_clause
      (user_accessible_resources res_list) "ObjectId").trans ?_
    exact ⟨Or.inr, fun h => h.resolve_left hnull⟩

def Value.text : Value → String
  | .str s => s
  | .num n => toString n
  | .null => ""

/-- Columns of text, with the two operators the rewrite looks at. -/
def textSemantics : Semantics where
  sat c row :=
    if c.op = MatchOp.EQUAL then row c.name = c.value.text
    else if c.op = MatchOp.PREFIX then startswith (row c.name) c.value.text = true
    else True
  equal _ _ _ := Iff.rfl

/-- A server with one object-log table. -/
def sampleServer : Server where
  aaa_mode := .rbac
  aaa_auth_enabled := true
  auth_uri := "http://keystone:5000"
  ObjectLogTypeToConfigObjectType := [("ObjectVNTable", "virtual_network")]
  UveTypeToConfigObjectType := [("virtual-network", "virtual_network")]
  VIRTUAL_TABLES := []

def sampleCaller : Caller :=
  { default_app := true, is_role_cloud_admin := false, user_token := "token" }

/-- An API server that lists these networks. -/
def sampleVnc (fq_names : List (List String)) : VncApi where
  get_resource_list _ _ := some [("virtual-networks", fq_names)]
  get_user_token_info _ := .ok true

/-- A prefix condition on the table's own column. -/
def ownColumnWhere : Where :=
  [[{ name := "ObjectId", value := .str "default:", op := MatchOp.PREFIX }]]

theorem confined_sample :
    textSemantics.Safe "ObjectId" ["default:admin:vn1"]
      (sampleServer.check_perms_and_update_where_clause sampleCaller
        (sampleVnc [["default", "admin", "vn1"]]) (some ownColumnWhere) "ObjectVNTable" none) := by
  have hrestrict : Restrictable sampleServer.auth_uri "ObjectId" ["default:admin:vn1"] ownColumnWhere := by
    refine Or.inr ⟨?_, Or.inr ⟨by decide, "default:admin:vn1", by decide, Or.inr (by decide)⟩⟩
    unfold NoEmptyValue
    decide
  exact (confined_iff textSemantics sampleServer sampleCaller
    (sampleVnc [["default", "admin", "vn1"]]) (some ownColumnWhere) "ObjectVNTable" none
    rfl rfl rfl rfl).mpr (Or.inr (Or.inl hrestrict))

/-- Nothing is permitted, and a condition on another column stays as it is. -/
theorem nothing_permitted_unrestricted :
    ¬ ∀ (sem : Semantics) (S : Server) (caller : Caller) (vnc : VncApi)
      (where_clause : Option Where) (tabl : String) (tabn : Option Nat) (cfg_type : String)
      (res_list : List (String × List (List String))), S.aaa_mode = .rbac →
      S.is_role_cloud_admin caller = false →
      S.ObjectLogTypeToConfigObjectType.lookup tabl = some cfg_type →
      vnc.get_resource_list cfg_type caller.user_token = some res_list →
      sem.Safe "ObjectId" (user_accessible_resources res_list)
        (S.check_perms_and_update_where_clause caller vnc where_clause tabl tabn) := by
  intro hclaim
  have hsafe := hclaim textSemantics sampleServer sampleCaller (sampleVnc [])
    (some [[{ name := "Source", value := .str "a1", op := MatchOp.EQUAL }]]) "ObjectVNTable" none
    "virtual_network" _ rfl rfl rfl rfl
  have hsame : sampleServer.check_perms_and_update_where_clause sampleCaller (sampleVnc [])
      (some [[{ name := "Source", value := .str "a1", op := MatchOp.EQUAL }]]) "ObjectVNTable" none =
      .ok (some [[{ name := "Source", value := .str "a1", op := MatchOp.EQUAL }]]) := rfl
  rw [hsame] at hsafe
  have hrow := hsafe (fun _ => "a1") ⟨_, List.mem_singleton.mpr rfl, fun c hc => by
    rw [List.mem_singleton.mp hc]
    rfl⟩
  cases hrow

end TfAnalytics.OpServer
