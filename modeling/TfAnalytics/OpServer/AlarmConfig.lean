import TfAnalytics.Lib.Delimited
import TfAnalytics.Lib.OrderedMap
import TfAnalytics.Lib.Transition
import Mathlib.Data.List.Dedup
import Mathlib.Data.String.Basic

/-!
# Alarm generator — the configured alarms

`AlarmGenConfigHandler` (alarmgen_config_handler.py) keeps a table of alarms for each UVE
key. A configured alarm lists its UVE keys by table or by alias, with or without the name of
an object; `uveKey` translates them. When the configuration of an alarm changes, the keys
that are new, gone and kept are found by comparing the keys as they are written, and the
table is updated in this order under the translated keys.

* `entry_update_table`: what one update does to the entry of an alarm under a key;
* `mirrors_step_iff`: a step keeps the table in agreement with the configuration exactly
  when it takes back none of its own additions;
* `alarm_table_mirrors`: the runs all of whose steps do.
-/

namespace TfAnalytics.OpServer

open TfAnalytics.Lib

-- ---------------------------------------------------------------------------
-- UVE keys
-- ---------------------------------------------------------------------------

def UVE_MAP : List (String × String) := [
  ("virtual-network", "ObjectVNTable"),
  ("virtual-machine", "ObjectVMTable"),
  ("virtual-machine-interface", "ObjectVMITable"),
  ("service-instance", "ObjectSITable"),
  ("loadbalancer", "ObjectLBTable"),
  ("vrouter", "ObjectVRouter"),
  ("control-node", "ObjectBgpRouter"),
  ("bgp-peer", "ObjectBgpPeer"),
  ("routing-instance", "ObjectRoutingInstance"),
  ("xmpp-peer", "ObjectXmppPeerInfo"),
  ("analytics-node", "ObjectCollectorInfo"),
  ("analytics-alarm-node", "ObjectAnalyticsAlarmInfo"),
  ("analytics-snmp-node", "ObjectAnalyticsSNMPInfo"),
  ("database-node", "ObjectDatabaseInfo"),
  ("config-database-node", "ObjectConfigDatabaseInfo"),
  ("generator", "ObjectGeneratorInfo"),
  ("config-node", "ObjectConfigNode"),
  ("service-chain", "ServiceChain"),
  ("dns-node", "ObjectDns"),
  ("storage-pool", "ObjectPoolTable"),
  ("storage-osd", "ObjectOsdTable"),
  ("storage-disk", "ObjectDiskTable"),
  ("server", "ObjectServerTable"),
  ("prouter", "ObjectPRouter"),
  ("physical-interface", "ObjectPhysicalInterfaceTable"),
  ("logical-interface", "ObjectLogicalInterfaceTable"),
  ("storage-cluster", "ObjectStorageClusterTable"),
  ("user-defined-log-statistic", "UserDefinedLogStatTable"),
  ("kubernetes-manager-node", "ObjectKubernetesManagerNode"),
  ("tag", "ObjectTagTable"),
  ("project", "ObjectProjectTable"),
  ("firewall-policy", "ObjectFirewallPolicyTable"),
  ("firewall-rule", "ObjectFirewallRuleTable"),
  ("address-group", "ObjectAddressGroupTable"),
  ("service-group", "ObjectServiceGroupTable"),
  ("application-policy-set", "ObjectApplicationPolicySetTable"),
  ("job-execution", "ObjectJobExecutionTable")]

/-- The table of a UVE type; a name without a mapping is a table already. -/
def uveTable (name : String) : String := (UVE_MAP.lookup name).getD name

/-- The UVE key for an element of `uve_keys`. -/
def uveKey (key : String) : String :=
  match splitFirst ':' key.toList with
  | none => uveTable key
  | some (uve_type, name) => uveTable (String.ofList uve_type) ++ ":" ++ String.ofList name

-- ---------------------------------------------------------------------------
-- The handler
-- ---------------------------------------------------------------------------

/-- A config object: what the handler reads of an alarm, and its other attributes. -/
structure ConfigObj (γ : Type) where
  uve_key : List String
  /-- `'_alarm_rules' in config_obj.__dict__`. -/
  has_alarm_rules : Bool
  attrs : γ

/-- An alarm in a table: an instance of a plugin's class, or of `AlarmBase` itself. -/
structure AlarmBase (β γ : Type) where
  plugin : Option β
  _config : Option (ConfigObj γ)

/-- What is put in a table: an alarm, or only its configuration. -/
inductive AlarmObj (β γ : Type) where
  | base (alarm_obj : AlarmBase β γ)
  | config (alarm_obj : Option (ConfigObj γ))

inductive Operation where
  | CREATE
  | UPDATE
  | DELETE
deriving DecidableEq

abbrev AlarmTable (β γ : Type) := OrderedMap String (AlarmBase β γ)

abbrev AlarmConfigDb (β γ : Type) := OrderedMap String (AlarmTable β γ)

/-- `{uve_key: {alarm_fqname: operation}}`. -/
abbrev ChangeMap := OrderedMap String (String × Operation)

/-- An event of the config client. -/
inductive ConfigEvent (γ : Type) where
  | UPDATE (config_type fq_name : String) (config_obj : ConfigObj γ)
  | DELETE (config_type fq_name : String)

structure AlarmGenConfigHandler (β γ : Type) where
  _config_db : OrderedMap String (OrderedMap String (ConfigObj γ))
  _alarm_config_db : AlarmConfigDb β γ

/-- An alarm of a plugin: the UVE type it is for, and the object with its configuration. -/
structure InbuiltAlarm (β γ : Type) where
  uve_type : String
  fq_name : String
  obj : AlarmBase β γ

section Handler

variable {β γ : Type}

def updateEntry (alarm_fqname : String) (alarm_obj : AlarmObj β γ) (operation : Operation)
    (alarm_table : AlarmTable β γ) : AlarmTable β γ :=
  match operation, alarm_obj with
  | .DELETE, _ => alarm_table.erase alarm_fqname
  | _, .base alarm_obj => alarm_table.assign alarm_fqname alarm_obj
  | _, .config alarm_obj =>
    match alarm_table.find? alarm_fqname with
    | some alarm => alarm_table.assign alarm_fqname { alarm with _config := alarm_obj }
    | none => alarm_table.assign alarm_fqname ⟨none, alarm_obj⟩

/-- One key; a table that a deletion leaves empty goes. -/
def updateKey (alarm_fqname : String) (alarm_obj : AlarmObj β γ) (operation : Operation)
    (db : AlarmConfigDb β γ) (key : String) : AlarmConfigDb β γ :=
  let uve_key := uveKey key
  let alarm_table := updateEntry alarm_fqname alarm_obj operation ((db.find? uve_key).getD .empty)
  if operation = .DELETE ∧ alarm_table.isEmpty = true then db.erase uve_key
  else db.assign uve_key alarm_table

def update_alarm_config_table (db : AlarmConfigDb β γ) (alarm_fqname : String)
    (alarm_obj : AlarmObj β γ) (uve_keys : List String) (operation : Operation) :
    AlarmConfigDb β γ × ChangeMap :=
  (uve_keys.foldl (updateKey alarm_fqname alarm_obj operation) db,
    uve_keys.foldl (fun m key => m.assign (uveKey key) (alarm_fqname, operation)) .empty)

/-- `dict.update`. -/
def ChangeMap.update (m m' : ChangeMap) : ChangeMap :=
  m'.entries.foldl (fun m e => m.assign e.1 e.2) m

def add_uve_keys (alarm_config config_obj : ConfigObj γ) : List String :=
  config_obj.uve_key.dedup.filter (· ∉ alarm_config.uve_key)

def del_uve_keys (alarm_config config_obj : ConfigObj γ) : List String :=
  alarm_config.uve_key.dedup.filter (· ∉ config_obj.uve_key)

def upd_uve_keys (alarm_config config_obj : ConfigObj γ) : List String :=
  config_obj.uve_key.dedup.filter (· ∈ alarm_config.uve_key)

/-- The update of an alarm, whose configuration so far is `alarm_config`. -/
def AlarmConfigDb.updateAlarm (db : AlarmConfigDb β γ) (fq_name : String)
    (alarm_config : Option (ConfigObj γ))
    (config_obj : ConfigObj γ) : AlarmConfigDb β γ × ChangeMap :=
  match alarm_config with
  | none =>
    update_alarm_config_table db fq_name (.config (some config_obj)) config_obj.uve_key .CREATE
  | some alarm_config =>
    let created := update_alarm_config_table db fq_name (.config (some config_obj))
      (add_uve_keys alarm_config config_obj) .CREATE
    let deleted := update_alarm_config_table created.1 fq_name (.config none)
      (del_uve_keys alarm_config config_obj) .DELETE
    let updated := update_alarm_config_table deleted.1 fq_name (.config (some config_obj))
      (upd_uve_keys alarm_config config_obj) .UPDATE
    (updated.1, (created.2.update deleted.2).update updated.2)

namespace AlarmGenConfigHandler

/-- `_config_db[config_type]`. -/
def configs (self : AlarmGenConfigHandler β γ) (config_type : String) :
    OrderedMap String (ConfigObj γ) :=
  (self._config_db.find? config_type).getD .empty

/-- The handler after an event, and what is called back. -/
def handle_config_update (self : AlarmGenConfigHandler β γ) :
    ConfigEvent γ → AlarmGenConfigHandler β γ × Option ChangeMap
  | .UPDATE config_type fq_name config_obj =>
    if config_type = "alarm" ∧ config_obj.has_alarm_rules = false then
      ({ self with _config_db := self._config_db.assign config_type (self.configs config_type) },
        none)
    else
      let updated :=
        if config_type = "alarm" then
          self._alarm_config_db.updateAlarm fq_name ((self.configs config_type).find? fq_name)
            config_obj
        else (self._alarm_config_db, .empty)
      ({ _config_db := self._config_db.assign config_type
            ((self.configs config_type).assign fq_name config_obj)
         _alarm_config_db := updated.1 },
        if updated.2.isEmpty then none else some updated.2)
  | .DELETE config_type fq_name =>
    let updated : AlarmConfigDb β γ × ChangeMap :=
      match (self.configs config_type).find? fq_name with
      | none => (self._alarm_config_db, .empty)
      | some config_obj =>
        if config_type = "alarm" then
          update_alarm_config_table self._alarm_config_db fq_name (.config none)
            config_obj.uve_key .DELETE
        else (self._alarm_config_db, .empty)
    let configs := (self.configs config_type).erase fq_name
    ({ _config_db :=
        if configs.isEmpty then self._config_db.erase config_type
        else self._config_db.assign config_type configs
       _alarm_config_db := updated.1 },
      if updated.2.isEmpty then none else some updated.2)

/-- `_create_inbuilt_alarms_config`. -/
def create_inbuilt_alarms_config (inbuilt : List (InbuiltAlarm β γ)) : AlarmConfigDb β γ :=
  inbuilt.foldl (fun db alarm =>
    (update_alarm_config_table db alarm.fq_name (.base alarm.obj) [alarm.uve_type] .CREATE).1) .empty

def init (inbuilt : List (InbuiltAlarm β γ)) : AlarmGenConfigHandler β γ :=
  ⟨.empty, create_inbuilt_alarms_config inbuilt⟩

end AlarmGenConfigHandler

end Handler

-- ---------------------------------------------------------------------------
-- Runs
-- ---------------------------------------------------------------------------

/-- `current` has the configuration that each alarm was last given. -/
structure AlarmRun (β γ : Type) where
  handler : AlarmGenConfigHandler β γ
  current : String → Option (ConfigObj γ)

section Runs

variable {β γ : Type} (inbuilt : List (InbuiltAlarm β γ))

def inbuiltNames : List String := inbuilt.map InbuiltAlarm.fq_name

/-- Alarms are those of users: with rules, and named unlike the built-in ones. -/
def ConfigEvent.Applies : ConfigEvent γ → Prop
  | .UPDATE config_type fq_name config_obj =>
    config_type = "alarm" → config_obj.has_alarm_rules = true ∧ fq_name ∉ inbuiltNames inbuilt
  | .DELETE config_type fq_name => config_type = "alarm" → fq_name ∉ inbuiltNames inbuilt

instance : (e : ConfigEvent γ) → Decidable (e.Applies inbuilt)
  | .UPDATE config_type fq_name config_obj => inferInstanceAs (Decidable (config_type = "alarm" →
      config_obj.has_alarm_rules = true ∧ fq_name ∉ inbuiltNames inbuilt))
  | .DELETE config_type fq_name =>
    inferInstanceAs (Decidable (config_type = "alarm" → fq_name ∉ inbuiltNames inbuilt))

/-- The configurations after an event. -/
def ConfigEvent.configure (current : String → Option (ConfigObj γ)) :
    ConfigEvent γ → String → Option (ConfigObj γ)
  | .UPDATE config_type fq_name config_obj =>
    if config_type = "alarm" then Function.update current fq_name (some config_obj) else current
  | .DELETE config_type fq_name =>
    if config_type = "alarm" then Function.update current fq_name none else current

def AlarmRun.step (s : AlarmRun β γ) (e : ConfigEvent γ) : Option (AlarmRun β γ) :=
  if e.Applies inbuilt then some ⟨(s.handler.handle_config_update e).1, e.configure s.current⟩
  else none

def configSystem : System (AlarmRun β γ) (ConfigEvent γ) :=
  ⟨⟨.init inbuilt, fun _ => none⟩, AlarmRun.step inbuilt⟩

/-- `_alarm_config_db[uve_key][fq_name]`. -/
def alarmEntry (db : AlarmConfigDb β γ) (uve_key fq_name : String) : Option (AlarmBase β γ) :=
  (db.find? uve_key).bind fun alarm_table => alarm_table.find? fq_name

/-- The entry that an alarm's configuration asks for. -/
def configuredEntry (config : Option (ConfigObj γ)) (uve_key : String) : Option (AlarmBase β γ) :=
  config.bind fun c => if uve_key ∈ c.uve_key.map uveKey then some ⟨none, some c⟩ else none

/-- Under each UVE key there are the built-in alarms and those configured for it, and there
is no other key. -/
structure AlarmRun.Mirrors (s : AlarmRun β γ) : Prop where
  untouched : ∀ uve_key, ∀ fq_name ∈ inbuiltNames inbuilt,
    alarmEntry s.handler._alarm_config_db uve_key fq_name =
      alarmEntry (AlarmGenConfigHandler.create_inbuilt_alarms_config inbuilt) uve_key fq_name
  configured : ∀ uve_key, ∀ fq_name ∉ inbuiltNames inbuilt,
    alarmEntry s.handler._alarm_config_db uve_key fq_name =
      configuredEntry (s.current fq_name) uve_key
  nonempty : ∀ uve_key, (s.handler._alarm_config_db.find? uve_key).isSome = true →
    ∃ fq_name, (alarmEntry s.handler._alarm_config_db uve_key fq_name).isSome = true

/-- Every UVE key whose table an event changes is in the map that is called back. -/
def AlarmRun.Reports (s : AlarmRun β γ) (e : ConfigEvent γ) : Prop :=
  ∀ uve_key, (s.handler.handle_config_update e).1._alarm_config_db.find? uve_key ≠
      s.handler._alarm_config_db.find? uve_key →
    ∃ changes, (s.handler.handle_config_update e).2 = some changes ∧
      (changes.find? uve_key).isSome = true

/-- No key that is new has the same translation as one that is gone, unless one that is kept
has it too. -/
def KeepsAdditions (s : AlarmRun β γ) : ConfigEvent γ → Prop
  | .UPDATE config_type fq_name config_obj => config_type = "alarm" →
    ∀ alarm_config, s.current fq_name = some alarm_config →
      ∀ uve_key ∈ (add_uve_keys alarm_config config_obj).map uveKey,
        uve_key ∈ (del_uve_keys alarm_config config_obj).map uveKey →
          uve_key ∈ (upd_uve_keys alarm_config config_obj).map uveKey
  | .DELETE _ _ => True

end Runs

-- ---------------------------------------------------------------------------
-- One update of the table
-- ---------------------------------------------------------------------------

section Update

variable {β γ : Type} {fq_name : String} {alarm_obj : AlarmObj β γ} {operation : Operation}

/-- What an update makes of an alarm's entry. -/
def newEntry (alarm_obj : AlarmObj β γ) (operation : Operation) (old : Option (AlarmBase β γ)) :
    Option (AlarmBase β γ) :=
  match operation, alarm_obj with
  | .DELETE, _ => none
  | _, .base alarm_obj => some alarm_obj
  | _, .config alarm_obj => some ⟨old.bind AlarmBase.plugin, alarm_obj⟩

theorem newEntry_idem (old : Option (AlarmBase β γ)) :
    newEntry alarm_obj operation (newEntry alarm_obj operation old) =
      newEntry alarm_obj operation old := by
  cases operation <;> cases alarm_obj <;> rfl

theorem find?_updateEntry (alarm_table : AlarmTable β γ) (f : String) :
    (updateEntry fq_name alarm_obj operation alarm_table).find? f =
      if f = fq_name then newEntry alarm_obj operation (alarm_table.find? fq_name)
      else alarm_table.find? f := by
  have hput : ∀ b : AlarmBase β γ, (alarm_table.assign fq_name b).find? f =
      if f = fq_name then some b else alarm_table.find? f :=
    fun b => OrderedMap.find?_assign alarm_table fq_name f b
  cases operation with
  | DELETE => exact OrderedMap.find?_erase alarm_table fq_name f
  | CREATE =>
    cases alarm_obj with
    | base b => exact hput b
    | config c =>
      unfold updateEntry newEntry
      cases alarm_table.find? fq_name <;> exact hput _
  | UPDATE =>
    cases alarm_obj with
    | base b => exact hput b
    | config c =>
      unfold updateEntry newEntry
      cases alarm_table.find? fq_name <;> exact hput _

theorem alarmEntry_eq_find? (db : AlarmConfigDb β γ) (t f : String) :
    alarmEntry db t f = ((db.find? t).getD .empty).find? f := by
  unfold alarmEntry
  cases db.find? t <;> rfl

theorem find?_updateKey_of_ne {key t : String} (ht : t ≠ uveKey key) (db : AlarmConfigDb β γ) :
    (updateKey fq_name alarm_obj operation db key).find? t = db.find? t := by
  rw [updateKey]
  split
  · rw [OrderedMap.find?_erase, if_neg ht]
  · rw [OrderedMap.find?_assign, if_neg ht]

theorem alarmEntry_updateKey (db : AlarmConfigDb β γ) (key t f : String) :
    alarmEntry (updateKey fq_name alarm_obj operation db key) t f =
      if t = uveKey key ∧ f = fq_name then newEntry alarm_obj operation (alarmEntry db t f)
      else alarmEntry db t f := by
  by_cases ht : t = uveKey key
  · subst ht
    have hentry : alarmEntry (updateKey fq_name alarm_obj operation db key) (uveKey key) f =
        (updateEntry fq_name alarm_obj operation
          ((db.find? (uveKey key)).getD .empty)).find? f := by
      rw [alarmEntry_eq_find?, updateKey]
      split
      · rename_i hgone
        rw [OrderedMap.find?_erase, if_pos rfl]
        exact (OrderedMap.isEmpty_iff.mp hgone.2 f).symm
      · rw [OrderedMap.find?_assign, if_pos rfl]
        rfl
    rw [hentry, find?_updateEntry, ← alarmEntry_eq_find?, ← alarmEntry_eq_find?]
    by_cases hf : f = fq_name
    · rw [if_pos hf, if_pos ⟨rfl, hf⟩, hf]
    · rw [if_neg hf, if_neg fun h => hf h.2]
  · rw [if_neg fun h => ht h.1, alarmEntry, find?_updateKey_of_ne ht, alarmEntry]

/-- One update: the entries of the alarm under the translated keys, and no others. -/
theorem entry_update_table (uve_keys : List String) (db : AlarmConfigDb β γ) (t f : String) :
    alarmEntry (update_alarm_config_table db fq_name alarm_obj uve_keys operation).1 t f =
      if t ∈ uve_keys.map uveKey ∧ f = fq_name then newEntry alarm_obj operation (alarmEntry db t f)
      else alarmEntry db t f := by
  unfold update_alarm_config_table
  induction uve_keys generalizing db with
  | nil => simp
  | cons key uve_keys ih =>
    simp only [List.foldl_cons, List.map_cons, List.mem_cons]
    rw [ih, alarmEntry_updateKey]
    by_cases hf : f = fq_name
    · by_cases hkey : t = uveKey key
      · simp only [hkey, hf, and_self, if_true, true_or, newEntry_idem, ite_self]
      · simp only [hkey, hf, and_true, if_false, false_or]
    · simp only [hf, and_false, if_false]

theorem find?_update_table_of_notMem {uve_keys : List String} {t : String}
    (ht : t ∉ uve_keys.map uveKey) (db : AlarmConfigDb β γ) :
    (update_alarm_config_table db fq_name alarm_obj uve_keys operation).1.find? t = db.find? t := by
  unfold update_alarm_config_table
  induction uve_keys generalizing db with
  | nil => rfl
  | cons key uve_keys ih =>
    rw [List.map_cons, List.mem_cons, not_or] at ht
    rw [List.foldl_cons, ih ht.2, find?_updateKey_of_ne ht.1]

/-- No table is empty. -/
def TablesNonempty (db : AlarmConfigDb β γ) : Prop :=
  ∀ t, (db.find? t).isSome = true → ∃ f, (alarmEntry db t f).isSome = true

theorem tablesNonempty_updateKey {db : AlarmConfigDb β γ} (h : TablesNonempty db) (key : String) :
    TablesNonempty (updateKey fq_name alarm_obj operation db key) := by
  intro t hsome
  by_cases ht : t = uveKey key
  · by_cases hdelete : operation = .DELETE
    · subst hdelete
      rw [updateKey] at hsome ⊢
      split at hsome
      · rw [OrderedMap.find?_erase, if_pos ht] at hsome
        cases hsome
      · rename_i hkept
        rw [if_neg hkept]
        have hnot := mt OrderedMap.isEmpty_iff.mpr fun hempty => hkept ⟨rfl, hempty⟩
        obtain ⟨f, hf⟩ := not_forall.mp hnot
        refine ⟨f, ?_⟩
        rw [alarmEntry, OrderedMap.find?_assign, if_pos ht]
        exact Option.isSome_iff_ne_none.mpr hf
    · refine ⟨fq_name, ?_⟩
      rw [alarmEntry_updateKey, if_pos ⟨ht, rfl⟩]
      cases operation with
      | DELETE => exact absurd rfl hdelete
      | CREATE => cases alarm_obj <;> rfl
      | UPDATE => cases alarm_obj <;> rfl
  · rw [find?_updateKey_of_ne ht] at hsome
    obtain ⟨f, hf⟩ := h t hsome
    refine ⟨f, ?_⟩
    rw [alarmEntry_updateKey, if_neg fun h => ht h.1]
    exact hf

theorem tablesNonempty_update_table {db : AlarmConfigDb β γ} (h : TablesNonempty db)
    (uve_keys : List String) :
    TablesNonempty (update_alarm_config_table db fq_name alarm_obj uve_keys operation).1 := by
  unfold update_alarm_config_table
  induction uve_keys generalizing db with
  | nil => exact h
  | cons key uve_keys ih => exact ih (tablesNonempty_updateKey h key)

theorem changes_update_table (uve_keys : List String) (db : AlarmConfigDb β γ) (t : String) :
    ((update_alarm_config_table db fq_name alarm_obj uve_keys operation).2.find? t).isSome = true ↔
      t ∈ uve_keys.map uveKey := by
  have hfold : (update_alarm_config_table db fq_name alarm_obj uve_keys operation).2 =
      (uve_keys.map uveKey).foldl (fun m x => m.assign x (fq_name, operation)) .empty := by
    rw [List.foldl_map]
    rfl
  rw [hfold, OrderedMap.find?_foldl_assign fun _ => (fq_name, operation)]
  by_cases ht : t ∈ uve_keys.map uveKey
  · rw [if_pos ht]
    exact iff_of_true rfl ht
  · rw [if_neg ht]
    exact iff_of_false (by simp) ht

theorem isSome_update (m m' : ChangeMap) (t : String) :
    ((m.update m').find? t).isSome = true ↔
      (m.find? t).isSome = true ∨ (m'.find? t).isSome = true := by
  have hfold : ∀ (l : List (String × String × Operation)) (m : ChangeMap),
      ((l.foldl (fun m e => m.assign e.1 e.2) m).find? t).isSome = true ↔
        (m.find? t).isSome = true ∨ t ∈ l.map Prod.fst := by
    intro l
    induction l with
    | nil => simp
    | cons e l ih =>
      intro m
      rw [List.foldl_cons, ih, OrderedMap.find?_assign, List.map_cons, List.mem_cons]
      by_cases ht : t = e.1 <;> simp [ht]
  rw [ChangeMap.update, hfold]
  refine or_congr_right ?_
  rw [OrderedMap.find?, findList_isSome_iff]
  simp

end Update

-- ---------------------------------------------------------------------------
-- The update of an alarm
-- ---------------------------------------------------------------------------

section Alarm

variable {β γ : Type} {db : AlarmConfigDb β γ} {fq_name : String}

/-- The keys of the new configuration are those that are new and those that are kept. -/
theorem mem_new_keys (alarm_config config_obj : ConfigObj γ) (t : String) :
    t ∈ config_obj.uve_key.map uveKey ↔
      t ∈ (add_uve_keys alarm_config config_obj).map uveKey ∨
        t ∈ (upd_uve_keys alarm_config config_obj).map uveKey := by
  simp only [add_uve_keys, upd_uve_keys, List.mem_map, List.mem_filter, List.mem_dedup,
    decide_eq_true_eq]
  constructor
  · rintro ⟨key, hkey, rfl⟩
    by_cases hold : key ∈ alarm_config.uve_key
    · exact Or.inr ⟨key, ⟨hkey, hold⟩, rfl⟩
    · exact Or.inl ⟨key, ⟨hkey, hold⟩, rfl⟩
  · rintro (⟨key, ⟨hkey, -⟩, rfl⟩ | ⟨key, ⟨hkey, -⟩, rfl⟩)
    · exact ⟨key, hkey, rfl⟩
    · exact ⟨key, hkey, rfl⟩

/-- The keys of the old configuration are those that are gone and those that are kept. -/
theorem mem_old_keys (alarm_config config_obj : ConfigObj γ) (t : String) :
    t ∈ alarm_config.uve_key.map uveKey ↔
      t ∈ (del_uve_keys alarm_config config_obj).map uveKey ∨
        t ∈ (upd_uve_keys alarm_config config_obj).map uveKey := by
  simp only [del_uve_keys, upd_uve_keys, List.mem_map, List.mem_filter, List.mem_dedup,
    decide_eq_true_eq]
  constructor
  · rintro ⟨key, hkey, rfl⟩
    by_cases hnew : key ∈ config_obj.uve_key
    · exact Or.inr ⟨key, ⟨hnew, hkey⟩, rfl⟩
    · exact Or.inl ⟨key, ⟨hkey, hnew⟩, rfl⟩
  · rintro (⟨key, ⟨hkey, -⟩, rfl⟩ | ⟨key, ⟨-, hkey⟩, rfl⟩)
    · exact ⟨key, hkey, rfl⟩
    · exact ⟨key, hkey, rfl⟩

theorem configuredEntry_some (c : ConfigObj γ) (t : String) :
    (configuredEntry (some c) t : Option (AlarmBase β γ)) =
      if t ∈ c.uve_key.map uveKey then some ⟨none, some c⟩ else none := rfl

/-- The entry under a key is that of the new configuration, unless the key is added and then
deleted again. -/
theorem updateAlarm_entry_iff {alarm_config : Option (ConfigObj γ)} {t : String}
    (h : alarmEntry db t fq_name = configuredEntry alarm_config t) (config_obj : ConfigObj γ) :
    alarmEntry (db.updateAlarm fq_name alarm_config config_obj).1 t fq_name =
        configuredEntry (some config_obj) t ↔
      ∀ old, alarm_config = some old → t ∈ (add_uve_keys old config_obj).map uveKey →
        t ∈ (del_uve_keys old config_obj).map uveKey →
          t ∈ (upd_uve_keys old config_obj).map uveKey := by
  cases alarm_config with
  | none =>
    refine iff_of_true ?_ (by simp)
    rw [AlarmConfigDb.updateAlarm, entry_update_table, configuredEntry_some, h]
    by_cases ht : t ∈ config_obj.uve_key.map uveKey
    · rw [if_pos ⟨ht, rfl⟩, if_pos ht]
      rfl
    · rw [if_neg fun h => ht h.1, if_neg ht]
      rfl
  | some old =>
    have hnew := mem_new_keys old config_obj t
    have hold := mem_old_keys old config_obj t
    have hplugin : ((alarmEntry db t fq_name).bind AlarmBase.plugin) = none := by
      rw [h, configuredEntry_some]
      split <;> rfl
    rw [configuredEntry_some] at h
    simp only [AlarmConfigDb.updateAlarm, entry_update_table, and_true, configuredEntry_some, hnew,
      Option.some.injEq, forall_eq']
    by_cases hupd : t ∈ (upd_uve_keys old config_obj).map uveKey
    · -- A key that is kept gets its entry last.
      refine iff_of_true ?_ fun _ _ => hupd
      rw [if_pos hupd, if_pos (Or.inr hupd)]
      split
      · rfl
      · split <;> simp only [newEntry, hplugin, Option.bind_some]
    · rw [if_neg hupd]
      by_cases hdel : t ∈ (del_uve_keys old config_obj).map uveKey
      · rw [if_pos hdel]
        by_cases hadd : t ∈ (add_uve_keys old config_obj).map uveKey
        · rw [if_pos (Or.inl hadd)]
          exact iff_of_false nofun fun hall => hupd (hall hadd hdel)
        · rw [if_neg (not_or.mpr ⟨hadd, hupd⟩)]
          exact iff_of_true rfl fun h => absurd h hadd
      · rw [if_neg hdel]
        refine iff_of_true ?_ fun _ h => absurd h hdel
        by_cases hadd : t ∈ (add_uve_keys old config_obj).map uveKey
        · rw [if_pos hadd, if_pos (Or.inl hadd)]
          simp only [newEntry, hplugin]
        · rw [if_neg hadd, if_neg (not_or.mpr ⟨hadd, hupd⟩), h,
            if_neg (mt hold.mp (not_or.mpr ⟨hdel, hupd⟩))]

theorem updateAlarm_entry_other {f : String} (hf : f ≠ fq_name)
    (alarm_config : Option (ConfigObj γ)) (config_obj : ConfigObj γ) (t : String) :
    alarmEntry (db.updateAlarm fq_name alarm_config config_obj).1 t f = alarmEntry db t f := by
  cases alarm_config <;> simp only [AlarmConfigDb.updateAlarm, entry_update_table, hf, and_false, if_false]

theorem tablesNonempty_updateAlarm (h : TablesNonempty db) (alarm_config : Option (ConfigObj γ))
    (config_obj : ConfigObj γ) :
    TablesNonempty (db.updateAlarm fq_name alarm_config config_obj).1 := by
  cases alarm_config with
  | none => exact tablesNonempty_update_table h _
  | some old =>
    exact tablesNonempty_update_table
      (tablesNonempty_update_table (tablesNonempty_update_table h _) _) _

theorem updateAlarm_reports (alarm_config : Option (ConfigObj γ)) (config_obj : ConfigObj γ)
    {t : String}
    (h : (db.updateAlarm fq_name alarm_config config_obj).1.find? t ≠ db.find? t) :
    ((db.updateAlarm fq_name alarm_config config_obj).2.find? t).isSome = true := by
  cases alarm_config with
  | none =>
    rw [AlarmConfigDb.updateAlarm, changes_update_table]
    exact Classical.not_not.mp fun hnot => h (find?_update_table_of_notMem hnot db)
  | some old =>
    simp only [AlarmConfigDb.updateAlarm, isSome_update, changes_update_table]
    by_contra hnot
    rw [not_or, not_or] at hnot
    refine h ?_
    simp only [AlarmConfigDb.updateAlarm]
    rw [find?_update_table_of_notMem hnot.2, find?_update_table_of_notMem hnot.1.2,
      find?_update_table_of_notMem hnot.1.1]

end Alarm

-- ---------------------------------------------------------------------------
-- One event
-- ---------------------------------------------------------------------------

section Event

variable {β γ : Type} {inbuilt : List (InbuiltAlarm β γ)} {s : AlarmRun β γ}

open AlarmGenConfigHandler

theorem configs_assign (db : OrderedMap String (OrderedMap String (ConfigObj γ)))
    (config_type : String) (configs : OrderedMap String (ConfigObj γ)) (adb : AlarmConfigDb β γ) :
    (AlarmGenConfigHandler.mk (db.assign config_type configs) adb).configs "alarm" =
      if "alarm" = config_type then configs
      else (AlarmGenConfigHandler.mk db adb).configs "alarm" := by
  unfold AlarmGenConfigHandler.configs
  rw [OrderedMap.find?_assign]
  split <;> rfl

/-- `_config_db` has the configurations of the alarms. -/
theorem configs_handle (self : AlarmGenConfigHandler β γ) {e : ConfigEvent γ}
    (happlies : e.Applies inbuilt) (f : String) :
    ((self.handle_config_update e).1.configs "alarm").find? f =
      e.configure (fun f => (self.configs "alarm").find? f) f := by
  cases e with
  | UPDATE config_type fq_name config_obj =>
    rw [handle_config_update]
    split
    · rename_i hignored
      exact absurd (happlies hignored.1).1 (by rw [hignored.2]; exact Bool.noConfusion)
    · rw [configs_assign, ConfigEvent.configure]
      by_cases htype : config_type = "alarm"
      · subst htype
        rw [if_pos rfl, if_pos rfl, OrderedMap.find?_assign, Function.update_apply]
      · rw [if_neg htype, if_neg htype, if_neg (Ne.symm htype)]
  | DELETE config_type fq_name =>
    rw [ConfigEvent.configure]
    have hconfigs : ((self.handle_config_update (.DELETE config_type fq_name)).1.configs
        "alarm").find? f = if "alarm" = config_type
          then ((self.configs config_type).erase fq_name).find? f
          else (self.configs "alarm").find? f := by
      rw [handle_config_update]
      unfold AlarmGenConfigHandler.configs
      dsimp only
      split
      · rename_i hempty
        rw [OrderedMap.find?_erase]
        by_cases htype : "alarm" = config_type
        · rw [if_pos htype, if_pos htype]
          exact (OrderedMap.isEmpty_iff.mp hempty f).symm
        · rw [if_neg htype, if_neg htype]
      · rw [OrderedMap.find?_assign]
        by_cases htype : "alarm" = config_type
        · rw [if_pos htype, if_pos htype]
          rfl
        · rw [if_neg htype, if_neg htype]
    rw [hconfigs]
    by_cases htype : config_type = "alarm"
    · subst htype
      rw [if_pos rfl, if_pos rfl, OrderedMap.find?_erase, Function.update_apply]
    · rw [if_neg htype, if_neg (Ne.symm htype)]

/-- The table after an event. -/
theorem db_handle_update (self : AlarmGenConfigHandler β γ) {config_type fq_name : String}
    {config_obj : ConfigObj γ}
    (happlies : (ConfigEvent.UPDATE config_type fq_name config_obj).Applies inbuilt) :
    (self.handle_config_update (.UPDATE config_type fq_name config_obj)).1._alarm_config_db =
      if config_type = "alarm" then
        (self._alarm_config_db.updateAlarm fq_name ((self.configs "alarm").find? fq_name)
          config_obj).1
      else self._alarm_config_db := by
  rw [handle_config_update]
  split
  · rename_i hignored
    exact absurd (happlies hignored.1).1 (by rw [hignored.2]; exact Bool.noConfusion)
  · by_cases htype : config_type = "alarm"
    · subst htype
      rfl
    · simp only [if_neg htype]

theorem db_handle_delete (self : AlarmGenConfigHandler β γ) (config_type fq_name : String) :
    (self.handle_config_update (.DELETE config_type fq_name)).1._alarm_config_db =
      if config_type = "alarm" then
        match (self.configs "alarm").find? fq_name with
        | none => self._alarm_config_db
        | some config_obj => (update_alarm_config_table self._alarm_config_db fq_name (.config none)
            config_obj.uve_key .DELETE).1
      else self._alarm_config_db := by
  rw [handle_config_update]
  by_cases htype : config_type = "alarm"
  · subst htype
    dsimp only
    cases (self.configs "alarm").find? fq_name <;> rfl
  · simp only [if_neg htype]
    cases (self.configs config_type).find? fq_name <;> rfl

/-- A map in which a key is, is called back. -/
theorem called_back {changes : ChangeMap} {t : String} (h : (changes.find? t).isSome = true) :
    (if changes.isEmpty then none else some changes) = some changes := by
  rw [if_neg]
  intro hempty
  rw [OrderedMap.isEmpty_iff.mp hempty t] at h
  cases h

theorem reports (s : AlarmRun β γ) (e : ConfigEvent γ) (happlies : e.Applies inbuilt) :
    s.Reports e := by
  intro t hchanged
  cases e with
  | UPDATE config_type fq_name config_obj =>
    rw [db_handle_update s.handler happlies] at hchanged
    by_cases htype : config_type = "alarm"
    · subst htype
      rw [if_pos rfl] at hchanged
      have hsome := updateAlarm_reports _ config_obj hchanged
      refine ⟨_, ?_, hsome⟩
      rw [handle_config_update, if_neg]
      · exact called_back hsome
      · intro hignored
        exact absurd (happlies rfl).1 (by rw [hignored.2]; exact Bool.noConfusion)
    · rw [if_neg htype] at hchanged
      exact absurd rfl hchanged
  | DELETE config_type fq_name =>
    rw [db_handle_delete] at hchanged
    by_cases htype : config_type = "alarm"
    · subst htype
      rw [if_pos rfl] at hchanged
      cases hconfig : (s.handler.configs "alarm").find? fq_name with
      | none =>
        rw [hconfig] at hchanged
        exact absurd rfl hchanged
      | some config_obj =>
        rw [hconfig] at hchanged
        have hsome : ((update_alarm_config_table s.handler._alarm_config_db fq_name (.config none)
            config_obj.uve_key .DELETE).2.find? t).isSome = true := by
          rw [changes_update_table]
          exact Classical.not_not.mp fun hnot => hchanged (find?_update_table_of_notMem hnot _)
        refine ⟨_, ?_, hsome⟩
        simp only [handle_config_update, hconfig, if_true]
        exact called_back hsome
    · rw [if_neg htype] at hchanged
      exact absurd rfl hchanged

/-- What runs keep: the table mirrors the configurations, and these are in `_config_db`. -/
structure ConfigInv (inbuilt : List (InbuiltAlarm β γ)) (s : AlarmRun β γ) : Prop where
  mirrors : s.Mirrors inbuilt
  current : ∀ f, s.current f = (s.handler.configs "alarm").find? f

theorem AlarmRun.Mirrors.nonempty_tables (h : s.Mirrors inbuilt) :
    TablesNonempty s.handler._alarm_config_db := h.nonempty

/-- What a table must satisfy after an event on one alarm: the other alarms are as before. -/
theorem mirrors_of_entries (h : s.Mirrors inbuilt) {fq_name : String}
    (hname : fq_name ∉ inbuiltNames inbuilt) {db : AlarmConfigDb β γ}
    {config : Option (ConfigObj γ)} {handler : AlarmGenConfigHandler β γ}
    (hdb : handler._alarm_config_db = db)
    (hother : ∀ t f, f ≠ fq_name → alarmEntry db t f = alarmEntry s.handler._alarm_config_db t f)
    (hnonempty : TablesNonempty db) :
    (AlarmRun.mk handler (Function.update s.current fq_name config)).Mirrors inbuilt ↔
      ∀ t, alarmEntry db t fq_name = configuredEntry config t := by
  subst hdb
  constructor
  · intro h' t
    have hentry := h'.configured t fq_name hname
    simpa using hentry
  · intro hentry
    refine ⟨fun t f hf => ?_, fun t f hf => ?_, hnonempty⟩
    · rw [hother t f fun heq => hname (heq ▸ hf)]
      exact h.untouched t f hf
    · by_cases hfq : f = fq_name
      · subst hfq
        simpa using hentry t
      · have hsame : Function.update s.current fq_name config f = s.current f :=
          Function.update_of_ne hfq ..
        rw [hother t f hfq, h.configured t f hf]
        exact congrArg (configuredEntry · t) hsame.symm

/-- An event keeps the table in agreement with the configurations exactly when it takes back
none of its additions. -/
theorem mirrors_step_iff (h : ConfigInv inbuilt s) {e : ConfigEvent γ} {s' : AlarmRun β γ}
    (hstep : (configSystem inbuilt).step s e = some s') :
    s'.Mirrors inbuilt ↔ KeepsAdditions s e := by
  change s.step inbuilt e = some s' at hstep
  rw [AlarmRun.step] at hstep
  split at hstep
  · rename_i happlies
    obtain rfl := Option.some.inj hstep
    cases e with
    | UPDATE config_type fq_name config_obj =>
      -- an alarm is configured, for the first time or again
      have hdb := db_handle_update s.handler happlies
      by_cases htype : config_type = "alarm"
      · subst htype
        rw [if_pos rfl, ← h.current] at hdb
        rw [ConfigEvent.configure, if_pos rfl, mirrors_of_entries h.mirrors (happlies rfl).2 hdb
          (fun t f hf => updateAlarm_entry_other hf _ _ t)
          (tablesNonempty_updateAlarm h.mirrors.nonempty_tables _ _)]
        simp only [updateAlarm_entry_iff (h.mirrors.configured _ fq_name (happlies rfl).2),
          KeepsAdditions]
        exact ⟨fun hall _ old hold t hadd hdel => hall t old hold hadd hdel,
          fun hall t old hold hadd hdel => hall trivial old hold t hadd hdel⟩
      · rw [if_neg htype] at hdb
        rw [ConfigEvent.configure, if_neg htype]
        refine iff_of_true ⟨?_, ?_, ?_⟩ fun heq => absurd heq htype
        · rw [hdb]
          exact h.mirrors.untouched
        · rw [hdb]
          exact h.mirrors.configured
        · rw [hdb]
          exact h.mirrors.nonempty
    | DELETE config_type fq_name =>
      -- one that is deleted was configured for the tables that it is now taken out of
      have hdb := db_handle_delete s.handler config_type fq_name
      refine iff_of_true ?_ trivial
      by_cases htype : config_type = "alarm"
      · subst htype
        rw [if_pos rfl] at hdb
        have hbefore : ∀ t, alarmEntry s.handler._alarm_config_db t fq_name =
            configuredEntry ((s.handler.configs "alarm").find? fq_name) t := by
          intro t
          rw [← h.current]
          exact h.mirrors.configured t fq_name (happlies rfl)
        -- nothing is done for an alarm that is not there
        cases hconfig : (s.handler.configs "alarm").find? fq_name with
        | none =>
          rw [hconfig] at hdb hbefore
          rw [ConfigEvent.configure, if_pos rfl, mirrors_of_entries h.mirrors (happlies rfl) hdb
            (fun _ _ _ => rfl) h.mirrors.nonempty_tables]
          exact hbefore
        | some config_obj =>
          rw [hconfig] at hdb hbefore
          rw [ConfigEvent.configure, if_pos rfl, mirrors_of_entries h.mirrors (happlies rfl) hdb
            (fun t f hf => by rw [entry_update_table, if_neg fun heq => hf heq.2])
            (tablesNonempty_update_table h.mirrors.nonempty_tables _)]
          -- in the tables of its keys it has an entry no more, and in no other
          intro t
          rw [entry_update_table, hbefore, configuredEntry_some]
          by_cases ht : t ∈ config_obj.uve_key.map uveKey
          · rw [if_pos ⟨ht, rfl⟩]
            rfl
          · rw [if_neg fun heq => ht heq.1, if_neg ht]
            rfl
      · rw [if_neg htype] at hdb
        rw [ConfigEvent.configure, if_neg htype]
        refine ⟨?_, ?_, ?_⟩
        · rw [hdb]
          exact h.mirrors.untouched
        · rw [hdb]
          exact h.mirrors.configured
        · rw [hdb]
          exact h.mirrors.nonempty
  · cases hstep

theorem current_step (h : ∀ f, s.current f = (s.handler.configs "alarm").find? f)
    {e : ConfigEvent γ} {s' : AlarmRun β γ} (hstep : (configSystem inbuilt).step s e = some s')
    (f : String) : s'.current f = (s'.handler.configs "alarm").find? f := by
  change s.step inbuilt e = some s' at hstep
  rw [AlarmRun.step] at hstep
  split at hstep
  · rename_i happlies
    obtain rfl := Option.some.inj hstep
    rw [configs_handle s.handler happlies, ← funext h]
  · cases hstep

theorem configInv_init : ConfigInv inbuilt (configSystem inbuilt).init := by
  have hfold : ∀ (alarms : List (InbuiltAlarm β γ)) (db : AlarmConfigDb β γ),
      TablesNonempty db →
      TablesNonempty (alarms.foldl (fun db alarm => (update_alarm_config_table db alarm.fq_name
        (.base alarm.obj) [alarm.uve_type] .CREATE).1) db) ∧
      ∀ t, ∀ f ∉ inbuiltNames alarms,
        alarmEntry (alarms.foldl (fun db alarm => (update_alarm_config_table db alarm.fq_name
          (.base alarm.obj) [alarm.uve_type] .CREATE).1) db) t f = alarmEntry db t f := by
    intro alarms
    induction alarms with
    | nil => exact fun db hdb => ⟨hdb, fun _ _ _ => rfl⟩
    | cons alarm alarms ih =>
      intro db hdb
      obtain ⟨hnonempty, hentries⟩ := ih _ (tablesNonempty_update_table hdb [alarm.uve_type])
      refine ⟨hnonempty, fun t f hf => ?_⟩
      rw [inbuiltNames, List.map_cons, List.mem_cons, not_or] at hf
      rw [List.foldl_cons, hentries t f hf.2, entry_update_table, if_neg fun heq => hf.1 heq.2]
  obtain ⟨hnonempty, hentries⟩ := hfold inbuilt .empty fun t ht => by cases ht
  exact ⟨⟨fun _ _ _ => rfl, hentries, hnonempty⟩, fun _ => rfl⟩

/-- When no update takes back its additions, the table mirrors the configured alarms, and every
change is reported. -/
theorem alarm_table_mirrors (h : (configSystem inbuilt).ReachableVia KeepsAdditions s) :
    s.Mirrors inbuilt ∧ ∀ e, e.Applies inbuilt → s.Reports e := by
  have hinv : ConfigInv inbuilt s :=
    h.invariant configInv_init fun _ _ _ hs hok hstep =>
      ⟨(mirrors_step_iff hs hstep).mpr hok, current_step hs.current hstep⟩
  exact ⟨hinv.mirrors, fun e happlies => reports s e happlies⟩

end Event

section Sample

/-- An alarm with rules on these UVE keys. -/
def sampleConfigObj (uve_key : List String) : ConfigObj Unit := ⟨uve_key, true, ()⟩

def sampleInbuilt : List (InbuiltAlarm Unit Unit) :=
  [⟨"vrouter", "default-global-system-config:process-status", ⟨some (), none⟩⟩]

/-- An update of a user's alarm. -/
theorem sample_step (s : AlarmRun Unit Unit) {fq_name : String}
    (hname : fq_name ∉ inbuiltNames sampleInbuilt) (uve_key : List String) :
    ∃ s', (configSystem sampleInbuilt).step s
        (.UPDATE "alarm" fq_name (sampleConfigObj uve_key)) = some s' ∧
      s'.current = Function.update s.current fq_name (some (sampleConfigObj uve_key)) := by
  have happlies : (ConfigEvent.UPDATE "alarm" fq_name (sampleConfigObj uve_key)).Applies
      sampleInbuilt := fun _ => ⟨rfl, hname⟩
  refine ⟨⟨(s.handler.handle_config_update
    (.UPDATE "alarm" fq_name (sampleConfigObj uve_key))).1, _⟩, ?_, rfl⟩
  simp only [configSystem, AlarmRun.step, if_pos happlies]
  rfl

/-- Two alarms for virtual networks, the one by the alias and the other by the table. The
first one keeps this key and changes the other. -/
theorem alarm_table_mirrors_sample :
    ∃ s, (configSystem sampleInbuilt).Reachable s ∧ s.Mirrors sampleInbuilt ∧
      alarmEntry s.handler._alarm_config_db "ObjectVNTable" "a" =
        some ⟨none, some (sampleConfigObj ["virtual-network", "server:s1"])⟩ ∧
      alarmEntry s.handler._alarm_config_db "ObjectVNTable" "b" =
        some ⟨none, some (sampleConfigObj ["ObjectVNTable"])⟩ ∧
      alarmEntry s.handler._alarm_config_db "ObjectVRouter" "a" = none := by
  have ha : "a" ∉ inbuiltNames sampleInbuilt := by decide
  have hb : "b" ∉ inbuiltNames sampleInbuilt := by decide
  obtain ⟨s₁, hfirst, hcurrent₁⟩ :=
    sample_step (configSystem sampleInbuilt).init ha ["virtual-network", "vrouter"]
  obtain ⟨s₂, hsecond, hcurrent₂⟩ := sample_step s₁ hb ["ObjectVNTable"]
  obtain ⟨s₃, hthird, hcurrent₃⟩ := sample_step s₂ ha ["virtual-network", "server:s1"]
  have hnew : ∀ (s : AlarmRun Unit Unit) {fq_name : String} {config_obj : ConfigObj Unit},
      s.current fq_name = none → KeepsAdditions s (.UPDATE "alarm" fq_name config_obj) := by
    intro s fq_name config_obj hnone _ old hold
    rw [hnone] at hold
    cases hold
  have hkeeps : KeepsAdditions s₂
      (.UPDATE "alarm" "a" (sampleConfigObj ["virtual-network", "server:s1"])) := by
    intro _ old hold
    rw [hcurrent₂, Function.update_of_ne (by decide), hcurrent₁, Function.update_self] at hold
    obtain rfl := Option.some.inj hold
    decide
  have hvia : (configSystem sampleInbuilt).ReachableVia KeepsAdditions s₃ := by
    refine .step (.step (.step .init (hnew _ rfl) hfirst) (hnew _ ?_) hsecond) hkeeps hthird
    rw [hcurrent₁]
    rfl
  obtain ⟨hmirrors, -⟩ := alarm_table_mirrors hvia
  refine ⟨s₃, .step (.step (.step .init hfirst) hsecond) hthird, hmirrors, ?_, ?_, ?_⟩
  · rw [hmirrors.configured _ _ ha, hcurrent₃, Function.update_self, configuredEntry,
      Option.bind_some]
    exact if_pos (by decide)
  · rw [hmirrors.configured _ _ hb, hcurrent₃, Function.update_of_ne (by decide), hcurrent₂,
      Function.update_self, configuredEntry, Option.bind_some]
    exact if_pos (by decide)
  · rw [hmirrors.configured _ _ ha, hcurrent₃, Function.update_self, configuredEntry,
      Option.bind_some]
    exact if_neg (by decide)

/-- An alarm that is moved from an alias to the table itself is lost. -/
theorem not_mirrors : ¬ ∀ s, (configSystem sampleInbuilt).Reachable s → s.Mirrors sampleInbuilt := by
  intro hall
  have ha : "a" ∉ inbuiltNames sampleInbuilt := by decide
  obtain ⟨s, hfirst, hcurrent⟩ :=
    sample_step (configSystem sampleInbuilt).init ha ["virtual-network"]
  obtain ⟨s', hsecond, -⟩ := sample_step s ha ["ObjectVNTable"]
  have hinv : ConfigInv sampleInbuilt s :=
    ⟨hall s (.step .init hfirst), current_step configInv_init.current hfirst⟩
  have hkeeps := (mirrors_step_iff hinv hsecond).mp (hall s' (.step (.step .init hfirst) hsecond))
  rw [KeepsAdditions, hcurrent, Function.update_self] at hkeeps
  exact absurd (hkeeps rfl _ rfl "ObjectVNTable" (by decide) (by decide)) (by decide)

end Sample

end TfAnalytics.OpServer
