import TfAnalytics.OpServer.AlarmGen
import TfAnalytics.OpServer.AlarmTimers

/-!
# Alarm generator — alarms of the UVEs

`Controller` (alarmgen.py) raises and clears the alarms of a UVE when the UVE or the
alarm configuration changes, runs the timers of the alarms once a second, and takes
acknowledgements. Each place that changes what is reported for a UVE sends an
`AlarmTrace` with all its alarms. When a partition is given up, the alarms of its
UVEs are withdrawn.

What the alarm rules find in a UVE is an input of the calls, and so is the clock.
`none` stands for an exception.

* `run_alarm_timers_spec` / `run_alarm_timers_fails`: what a sweep leaves and sends,
  and when it fails;
* `sweepOk_iff`: when a sweep does what it should.
-/

namespace TfAnalytics.OpServer

open TfAnalytics.Lib

-- ---------------------------------------------------------------------------
-- The same alarm again
-- ---------------------------------------------------------------------------

namespace AlarmStateMachine

/-- For a comparison the values may change; only the variables count. -/
def sameConditionMatch (old_and_term new_and_term : AlarmConditionMatch) : Bool :=
  old_and_term.condition = new_and_term.condition &&
    old_and_term.match.length = new_and_term.match.length &&
    if old_and_term.condition.operation ∈ ["<", "<=", ">", ">=", "range"] then
      (old_and_term.match.zip new_and_term.match).all fun e =>
        e.1.json_variables = e.2.json_variables
    else old_and_term.match = new_and_term.match

def sameAndList (old_or_term new_or_term : AlarmAndList) : Bool :=
  old_or_term.and_list.length = new_or_term.and_list.length &&
    (old_or_term.and_list.zip new_or_term.and_list).all fun e => sameConditionMatch e.1 e.2

/-- A missing `or_list` is the same as an empty one. -/
def is_new_alarm_same (m : AlarmStateMachine) (new_uai : UVEAlarmInfo) : Option Bool :=
  m.uai.map fun uai =>
    let old_or_list := uai.alarm_rules.or_list.getD []
    let new_or_list := new_uai.alarm_rules.or_list.getD []
    old_or_list.length = new_or_list.length &&
      ((old_or_list.zip new_or_list).all fun e => sameAndList e.1 e.2) &&
      m.uas.state = .Active

end AlarmStateMachine

-- ---------------------------------------------------------------------------
-- Traces
-- ---------------------------------------------------------------------------

/-- `AlarmTrace` for a UVE; `none` says that it has no alarms any more. -/
structure AlarmTrace where
  uv : String
  alarms : Option (List UVEAlarmInfo)
  deriving DecidableEq

/-- `alm_copy`: the alarms of a UVE that are active or soak to become idle. -/
def almCopy (alarms : OrderedMap String AlarmStateMachine) : List UVEAlarmInfo :=
  alarms.entries.filterMap fun e => e.2.get_uai

def traceOf (uk : String) (alm_copy : List UVEAlarmInfo) : AlarmTrace :=
  ⟨uk, if alm_copy.length = 0 then none else some alm_copy⟩

/-- `tab_alarms[uk]` goes when it is empty. -/
def send_alarm_update (tab_alarms : TabAlarms) (uk : String) : Option (TabAlarms × AlarmTrace) := do
  let alarms ← tab_alarms.find? uk
  if alarms.isEmpty then some (tab_alarms.erase uk, traceOf uk [])
  else some (tab_alarms, traceOf uk (almCopy alarms))

-- ---------------------------------------------------------------------------
-- Timers
-- ---------------------------------------------------------------------------

/-- The alarm tables: `tab_alarms`, and the class variables of `AlarmStateMachine`. -/
structure AlarmTables where
  tab_alarms : TabAlarms
  tab_alarms_timer : TimerTable
  last_timers_run : Option Nat

def deleteAlarm (acc : TabAlarms × List AlarmTrace) (alarm : AlarmId) :
    Option (TabAlarms × List AlarmTrace) := do
  let tab_alarms ← acc.1.del alarm
  let (tab_alarms, trace) ← send_alarm_update tab_alarms alarm.uv
  some (tab_alarms, acc.2 ++ [trace])

def updateAlarm (acc : TabAlarms × List AlarmTrace) (alarm : AlarmId) :
    Option (TabAlarms × List AlarmTrace) := do
  let (tab_alarms, trace) ← send_alarm_update acc.1 alarm.uv
  some (tab_alarms, acc.2 ++ [trace])

/-- The tables after a sweep, and the traces it sends. -/
def run_alarm_timers (order : SetOrder) (curr_time : Nat) (t : AlarmTables) :
    Option (AlarmTables × List AlarmTrace) := do
  let (sweep, last_timers_run) ←
    run_timers order curr_time t.last_timers_run t.tab_alarms t.tab_alarms_timer
  let deleted ← sweep.delete_alarms.foldlM deleteAlarm (sweep.tab_alarms, [])
  let (tab_alarms, traces) ← sweep.update_alarms.foldlM updateAlarm deleted
  some (⟨tab_alarms, sweep.timers, some last_timers_run⟩, traces)

-- ---------------------------------------------------------------------------
-- Alarms of a UVE
-- ---------------------------------------------------------------------------

/-- An alarm that the rules find, and the timers that are configured for it. -/
structure NewAlarm where
  uai : UVEAlarmInfo
  uac : UVEAlarmConfig

/-- What the clock says when an alarm is looked at: `UTCTimestampUsec()`, and
`int(time.time())`, which is read later. -/
structure Clock where
  usec : Nat
  sec : Nat

/-- What `examine_uve_for_alarms` gets from its surroundings. -/
structure AlarmInputs (α : Type) where
  /-- the alarms that the rules find in a UVE -/
  uve_alarms : String → OrderedMap String α → OrderedMap String NewAlarm
  clock : AlarmId → Clock
  token : Nat → String

section Examine

variable {α : Type} (inp : AlarmInputs α)

/-- A new or updated alarm. -/
def raiseAlarm (uve_key : String) (t : AlarmTables) (e : String × NewAlarm) : Option AlarmTables := do
  let k : AlarmId := ⟨uve_key, e.1⟩
  let now := inp.clock k
  let uai := { e.2.uai with timestamp := now.usec, token := inp.token now.usec }
  let asm := (t.tab_alarms.machine k).getD (.init e.2.uac)
  let (asm, timers) ← (asm.set_uai uai).set_alarms t.tab_alarms_timer k now.sec
  some { t with tab_alarms := t.tab_alarms.put k asm, tab_alarms_timer := timers }

/-- An alarm that is gone. -/
def clearAlarm (uve_key : String) (t : AlarmTables) (dnm : String) : Option AlarmTables :=
  let k : AlarmId := ⟨uve_key, dnm⟩
  match t.tab_alarms.machine k with
  | none => some t
  | some asm => do
    let (asm, timers, delete_alarm) ← asm.clear_alarms t.tab_alarms_timer k (inp.clock k).sec
    let tab_alarms ← t.tab_alarms.clear k asm delete_alarm
    some { t with tab_alarms, tab_alarms_timer := timers }

/-- The alarms that are not there as they are already. -/
def newAlarms (alarms : OrderedMap String AlarmStateMachine) (uve_alarms : OrderedMap String NewAlarm) :
    Option (List (String × NewAlarm)) :=
  uve_alarms.entries.filterMapM fun e =>
    match alarms.find? e.1 with
    | none => some (some e)
    | some asm => (asm.is_new_alarm_same e.2.uai).map fun same => if same then none else some e

/-- The alarm types that were there and are not found any more. -/
def delTypes (alarms : OrderedMap String AlarmStateMachine) (uve_alarms : OrderedMap String NewAlarm) :
    List String :=
  (dictKeys alarms).filter fun nm => (uve_alarms.find? nm).isNone

def examine_uve_for_alarms (uve_key : String) (uve : OrderedMap String α) (t : AlarmTables) :
    Option (AlarmTables × List AlarmTrace) := do
  let uve_alarms := inp.uve_alarms uve_key uve
  let alarms := (t.tab_alarms.find? uve_key).getD .empty
  let del_types := delTypes alarms uve_alarms
  let new_uve_alarms ← newAlarms alarms uve_alarms
  if del_types.length ≠ 0 ∨ new_uve_alarms.length ≠ 0 then
    let t ← new_uve_alarms.foldlM (raiseAlarm inp uve_key) t
    let t ← del_types.foldlM (clearAlarm inp uve_key) t
    let (tab_alarms, trace) ← send_alarm_update t.tab_alarms uve_key
    some ({ t with tab_alarms }, [trace])
  else some (t, [])

/-- One alarm of a UVE that is going away, and the types to be deleted. -/
def withdrawAlarm (uv : String) (acc : AlarmTables × List AlarmId) (nm : String) :
    Option (AlarmTables × List AlarmId) := do
  let k : AlarmId := ⟨uv, nm⟩
  let asm ← acc.1.tab_alarms.machine k
  let (asm, timers, delete_alarm) ← asm.clear_alarms acc.1.tab_alarms_timer k (inp.clock k).sec
  some ({ acc.1 with tab_alarms := acc.1.tab_alarms.put k asm, tab_alarms_timer := timers },
    if delete_alarm then acc.2 ++ [k] else acc.2)

/-- The part of `handle_uve_notif` for a UVE that has no structs of its own any more. -/
def withdrawAlarms (uv : String) (t : AlarmTables) : Option (AlarmTables × List AlarmTrace) :=
  match t.tab_alarms.find? uv with
  | none => some (t, [])
  | some alarms => do
    let (t, del_types) ← (dictKeys alarms).foldlM (withdrawAlarm inp uv) (t, [])
    let tab_alarms ← del_types.foldlM TabAlarms.del t.tab_alarms
    let (tab_alarms, trace) ← send_alarm_update tab_alarms uv
    some ({ t with tab_alarms }, [trace])

end Examine

-- ---------------------------------------------------------------------------
-- Acknowledgements
-- ---------------------------------------------------------------------------

structure SandeshAlarmAckRequest where
  table : String
  name : String
  type : String
  timestamp : Nat

inductive SandeshAlarmAckResponseCode where
  | SUCCESS | ALARM_NOT_PRESENT | INVALID_ALARM_REQUEST
  deriving DecidableEq

/-- `tab_alarms[table][uname][atype]`: a UVE is in the table that its key begins with. -/
def ackedMachine (tab_alarms : TabAlarms) (alarm_req : SandeshAlarmAckRequest) :
    Option AlarmStateMachine :=
  if ':' ∈ alarm_req.table.toList then none
  else tab_alarms.machine ⟨alarm_req.table ++ ":" ++ alarm_req.name, alarm_req.type⟩

def alarm_ack_callback (alarm_req : SandeshAlarmAckRequest) (t : AlarmTables) :
    SandeshAlarmAckResponseCode × AlarmTables × List AlarmTrace :=
  let uname := alarm_req.table ++ ":" ++ alarm_req.name
  match ackedMachine t.tab_alarms alarm_req with
  | none => (.ALARM_NOT_PRESENT, t, [])
  | some asm =>
    match asm.get_uai with
    | none => (.ALARM_NOT_PRESENT, t, [])
    | some alarm_type =>
      if alarm_type.timestamp ≠ alarm_req.timestamp then (.INVALID_ALARM_REQUEST, t, [])
      else if alarm_type.ack then (.SUCCESS, t, [])
      else
        let tab_alarms := t.tab_alarms.put ⟨uname, alarm_req.type⟩
          (asm.set_uai { alarm_type with ack := true })
        let alarm := almCopy ((tab_alarms.find? uname).getD .empty)
        (.SUCCESS, { t with tab_alarms }, [⟨uname, some alarm⟩])

-- ---------------------------------------------------------------------------
-- Partitions
-- ---------------------------------------------------------------------------

/-- The controller's variables, what it has sent, and the keys it has ever processed
for a partition. -/
structure Controller (α : Type) where
  ptab_info : OrderedMap Nat (PtabInfo α)
  tables : AlarmTables
  sent : List AlarmTrace
  processed : List (Nat × String)

namespace Controller

variable {α : Type} [DecidableEq α]

omit [DecidableEq α] in
/-- The tables change and traces are sent. -/
def tell (c : Controller α) (res : AlarmTables × List AlarmTrace) : Controller α :=
  { c with tables := res.1, sent := c.sent ++ res.2 }

/-- One UVE of a batch of `handle_uve_notif`. -/
def notifUve (get_uve : GetUve α) (inp : AlarmInputs α) (part : Nat) (c : Controller α)
    (e : String × Types) : Option (Controller α) := do
  let uv := e.1
  let ptab := (processUve get_uve ((c.ptab_info.find? part).getD .empty, .empty) e).1
  let c := { c with
    ptab_info := c.ptab_info.assign part ptab, processed := c.processed ++ [(part, uv)] }
  let res ←
    match ptab.find? uv with
    | none => withdrawAlarms inp uv c.tables
    | some info =>
      -- Only the alarms themselves are left of the UVE.
      if dictKeys info.current_dict = ["UVEAlarms"] then withdrawAlarms inp uv c.tables
      else examine_uve_for_alarms inp uv info.current_dict c.tables
  some (c.tell res)

omit [DecidableEq α] in
/-- A UVE that `alarm_config_change_worker` evaluates again. -/
def configChange (inp : AlarmInputs α) (part : Nat) (uv : String) (c : Controller α) :
    Option (Controller α) :=
  match (c.ptab_info.find? part).bind fun ptab => ptab.find? uv with
  | none => some c
  | some info => (examine_uve_for_alarms inp uv info.current_dict c.tables).map c.tell

end Controller

/-- All the timers of a UVE. -/
def delete_tab_alarms_timer (t : AlarmTables) (uv : String) : Option TimerTable := do
  let alarms ← t.tab_alarms.find? uv
  alarms.entries.foldlM (fun timers e => e.2.delete_timers timers ⟨uv, e.1⟩) t.tab_alarms_timer

/-- One UVE of a partition that is given up. -/
def stopUve (acc : AlarmTables × List AlarmTrace) (uk : String) :
    Option (AlarmTables × List AlarmTrace) :=
  match acc.1.tab_alarms.find? uk with
  | none => some acc
  | some _ => do
    let timers ← delete_tab_alarms_timer acc.1 uk
    some ({ acc.1 with tab_alarms := acc.1.tab_alarms.erase uk, tab_alarms_timer := timers },
      acc.2 ++ [⟨uk, none⟩])

namespace Controller

variable {α : Type} [DecidableEq α]

omit [DecidableEq α] in
def stop_uve_partition (part : Nat) (c : Controller α) : Option (Controller α) :=
  match c.ptab_info.find? part with
  | none => some c
  | some ptab => do
    let res ← (dictKeys ptab).foldlM stopUve (c.tables, [])
    some { c.tell res with ptab_info := c.ptab_info.erase part }

end Controller

/-- The calls, with what they are given. A batch is the sequence of its UVEs: other
calls may come in between, as each UVE has to be read. -/
inductive ControllerCall (α : Type) where
  | handle_uve_notif (part : Nat) (uv : String) (types : Types) (get_uve : GetUve α)
      (inp : AlarmInputs α)
  | alarm_config_change (part : Nat) (uv : String) (inp : AlarmInputs α)
  | run_alarm_timers (order : SetOrder) (curr_time : Nat)
  | alarm_ack_callback (alarm_req : SandeshAlarmAckRequest)
  | stop_uve_partition (part : Nat)

def controllerStep {α : Type} [DecidableEq α] (c : Controller α) :
    ControllerCall α → Option (Controller α)
  | .handle_uve_notif part uv types get_uve inp => c.notifUve get_uve inp part (uv, types)
  | .alarm_config_change part uv inp => c.configChange inp part uv
  | .run_alarm_timers order curr_time => (run_alarm_timers order curr_time c.tables).map c.tell
  | .alarm_ack_callback alarm_req => some (c.tell (alarm_ack_callback alarm_req c.tables).2)
  | .stop_uve_partition part => c.stop_uve_partition part

/-- A call that raises an exception has no next state: the process exits. -/
def controllerSystem (α : Type) [DecidableEq α] : System (Controller α) (ControllerCall α) where
  init := ⟨.empty, ⟨.empty, .empty, none⟩, [], []⟩
  step := controllerStep

-- ---------------------------------------------------------------------------
-- What is reported
-- ---------------------------------------------------------------------------

/-- The current alarms of a UVE: those of its machines in state `Active` or `Soak_Idle`. -/
def TabAlarms.reported (tab_alarms : TabAlarms) (uv : String) : List UVEAlarmInfo :=
  ((tab_alarms.find? uv).getD .empty).entries.filterMap fun e =>
    if e.2.uas.state = .Active ∨ e.2.uas.state = .Soak_Idle then e.2.uai else none

theorem get_uai_eq (m : AlarmStateMachine) :
    m.get_uai = if m.uas.state = .Active ∨ m.uas.state = .Soak_Idle then m.uai else none := by
  unfold AlarmStateMachine.get_uai
  cases m.uas.state <;> rfl

theorem reported_eq (tab_alarms : TabAlarms) (uv : String) :
    tab_alarms.reported uv = almCopy ((tab_alarms.find? uv).getD .empty) := by
  simp only [TabAlarms.reported, almCopy, get_uai_eq]

theorem machine_eq_find? (tab_alarms : TabAlarms) (uv nm : String) :
    tab_alarms.machine ⟨uv, nm⟩ = ((tab_alarms.find? uv).getD .empty).find? nm := by
  unfold TabAlarms.machine
  cases tab_alarms.find? uv <;> rfl

/-- What is reported for a UVE depends on its machines that are reported. -/
theorem reported_congr {tab_alarms tab_alarms' : TabAlarms} {uv : String}
    (h : ∀ nm, (tab_alarms.machine ⟨uv, nm⟩).bind AlarmStateMachine.get_uai =
      (tab_alarms'.machine ⟨uv, nm⟩).bind AlarmStateMachine.get_uai) :
    tab_alarms.reported uv = tab_alarms'.reported uv := by
  rw [reported_eq, reported_eq]
  refine OrderedMap.filterMap_entries_congr AlarmStateMachine.get_uai fun nm => ?_
  rw [← machine_eq_find?, ← machine_eq_find?]
  exact h nm

theorem reported_congr_find {tab_alarms tab_alarms' : TabAlarms} {uv : String}
    (h : tab_alarms.find? uv = tab_alarms'.find? uv) :
    tab_alarms.reported uv = tab_alarms'.reported uv := by
  rw [TabAlarms.reported, TabAlarms.reported, h]

theorem machine_congr_find {tab_alarms tab_alarms' : TabAlarms} {k : AlarmId}
    (h : tab_alarms.find? k.uv = tab_alarms'.find? k.uv) :
    tab_alarms.machine k = tab_alarms'.machine k := by
  rw [TabAlarms.machine, TabAlarms.machine, h]

/-- A UVE that has an entry has an alarm. -/
def TabAlarms.Kept (tab_alarms : TabAlarms) (uv : String) : Prop :=
  (tab_alarms.find? uv).isSome = true → ∃ nm, (tab_alarms.machine ⟨uv, nm⟩).isSome = true

theorem isEmpty_alarms_iff {tab_alarms : TabAlarms} {uv : String}
    {alarms : OrderedMap String AlarmStateMachine} (h : tab_alarms.find? uv = some alarms) :
    alarms.isEmpty = true ↔ ∀ nm, tab_alarms.machine ⟨uv, nm⟩ = none := by
  rw [OrderedMap.isEmpty_iff]
  simp only [machine_eq_find?, h, Option.getD_some]

theorem send_alarm_update_spec {tab_alarms : TabAlarms} {uk : String}
    (h : (tab_alarms.find? uk).isSome = true) :
    ∃ tab', send_alarm_update tab_alarms uk = some (tab', traceOf uk (tab_alarms.reported uk)) ∧
      (∀ k, tab'.machine k = tab_alarms.machine k) ∧ tab'.Kept uk ∧
      ∀ uv, uv ≠ uk → tab'.find? uv = tab_alarms.find? uv := by
  obtain ⟨alarms, halarms⟩ := Option.isSome_iff_exists.mp h
  have hreported : tab_alarms.reported uk = almCopy alarms := by
    rw [reported_eq, halarms, Option.getD_some]
  unfold send_alarm_update
  simp only [halarms, Option.bind_eq_bind, Option.bind_some]
  by_cases hempty : alarms.isEmpty = true
  · have hnone := (isEmpty_alarms_iff halarms).mp hempty
    have halm : almCopy alarms = [] := by
      unfold OrderedMap.isEmpty at hempty
      rw [almCopy, List.isEmpty_iff.mp hempty]
      rfl
    rw [if_pos hempty]
    refine ⟨tab_alarms.erase uk, by rw [hreported, halm], ?_, ?_, ?_⟩
    · rintro ⟨uv, nm⟩
      rw [machine_eq_find?, OrderedMap.find?_erase]
      by_cases huv : uv = uk
      · rw [if_pos huv, huv, hnone]
        rfl
      · rw [if_neg huv, machine_eq_find?]
    · intro hsome
      rw [OrderedMap.find?_erase, if_pos rfl] at hsome
      cases hsome
    · intro uv huv
      rw [OrderedMap.find?_erase, if_neg huv]
  · rw [if_neg hempty]
    refine ⟨tab_alarms, by rw [hreported], fun _ => rfl, fun _ => ?_, fun _ _ => rfl⟩
    by_contra hnone
    refine hempty ((isEmpty_alarms_iff halarms).mpr fun nm => ?_)
    by_contra hm
    exact hnone ⟨nm, Option.isSome_iff_ne_none.mpr hm⟩

-- ---------------------------------------------------------------------------
-- What a sweep sends
-- ---------------------------------------------------------------------------

/-- One machine that a sweep deletes. -/
theorem deleteAlarm_spec {acc : TabAlarms × List AlarmTrace} {k : AlarmId} {m : AlarmStateMachine}
    (hm : acc.1.machine k = some m) (hhidden : m.get_uai = none) :
    ∃ tab', deleteAlarm acc k = some (tab', acc.2 ++ [traceOf k.uv (acc.1.reported k.uv)]) ∧
      (∀ k', tab'.machine k' = if k' = k then none else acc.1.machine k') ∧ tab'.Kept k.uv ∧
      (∀ uv, uv ≠ k.uv → tab'.find? uv = acc.1.find? uv) ∧
      ∀ uv, tab'.reported uv = acc.1.reported uv := by
  obtain ⟨tab₁, hdel, hmachine₁⟩ := machine_del hm
  obtain ⟨hsome, hothers₁⟩ := find?_del hdel
  obtain ⟨tab', hsend, hmachine, hkept, hothers⟩ := send_alarm_update_spec hsome
  have hmachine' : ∀ k', tab'.machine k' = if k' = k then none else acc.1.machine k' := by
    intro k'
    rw [hmachine, hmachine₁]
  -- The machine was not reported, so what is reported stays.
  have hsame : ∀ (tab : TabAlarms), (∀ k', tab.machine k' = if k' = k then none else acc.1.machine k') →
      ∀ uv, tab.reported uv = acc.1.reported uv := by
    intro tab htab uv
    refine reported_congr fun nm => ?_
    rw [htab]
    by_cases hk : (⟨uv, nm⟩ : AlarmId) = k
    · rw [if_pos hk, hk, hm, Option.bind_some, hhidden]
      rfl
    · rw [if_neg hk]
  refine ⟨tab', ?_, hmachine', hkept, fun uv huv => ?_, hsame tab' hmachine'⟩
  · rw [hsame tab₁ hmachine₁] at hsend
    simp [deleteAlarm, hdel, hsend]
  · rw [hothers uv huv, hothers₁ uv huv]

/-- The machines that a sweep deletes. -/
theorem foldlM_deleteAlarm (l : List AlarmId) (hl : l.Nodup) (acc : TabAlarms × List AlarmTrace)
    (hmachine : ∀ k ∈ l, ∃ m, acc.1.machine k = some m ∧ m.get_uai = none) :
    ∃ tab', l.foldlM deleteAlarm acc =
        some (tab', acc.2 ++ l.map fun k => traceOf k.uv (acc.1.reported k.uv)) ∧
      (∀ k, tab'.machine k = if k ∈ l then none else acc.1.machine k) ∧
      (∀ k ∈ l, tab'.Kept k.uv) ∧
      (∀ uv, (∀ k ∈ l, uv ≠ k.uv) → tab'.find? uv = acc.1.find? uv) ∧
      ∀ uv, tab'.reported uv = acc.1.reported uv := by
  induction l generalizing acc with
  | nil => exact ⟨acc.1, by simp, by simp, by simp, fun _ _ => rfl, fun _ => rfl⟩
  | cons k l ih =>
    obtain ⟨hk, hl⟩ := List.nodup_cons.mp hl
    obtain ⟨m, hm, hhidden⟩ := hmachine k List.mem_cons_self
    obtain ⟨tab₁, hstep, hmachine₁, hkept₁, hothers₁, hreported₁⟩ := deleteAlarm_spec hm hhidden
    obtain ⟨tab', hfold, hmachine', hkept', hothers', hreported'⟩ := ih hl
      (tab₁, acc.2 ++ [traceOf k.uv (acc.1.reported k.uv)]) (by
        intro k' hk'
        have hne : k' ≠ k := fun heq => hk (heq ▸ hk')
        simp only [hmachine₁, if_neg hne]
        exact hmachine k' (List.mem_cons_of_mem k hk'))
    refine ⟨tab', ?_, fun k' => ?_, fun k' hk' => ?_, fun uv huv => ?_, fun uv => ?_⟩
    · rw [List.foldlM_cons, hstep, Option.bind_eq_bind, Option.bind_some, hfold]
      simp [hreported₁]
    · rw [hmachine']
      simp only [hmachine₁, List.mem_cons]
      by_cases hmem : k' ∈ l <;> by_cases heq : k' = k <;> simp [hmem, heq]
    · by_cases hlater : ∃ k₂ ∈ l, k₂.uv = k'.uv
      · obtain ⟨k₂, hk₂, heq⟩ := hlater
        exact heq ▸ hkept' k₂ hk₂
      · have hnot : ∀ k₂ ∈ l, k'.uv ≠ k₂.uv := fun k₂ hk₂ heq => hlater ⟨k₂, hk₂, heq.symm⟩
        have heq : k' = k := by
          rcases List.mem_cons.mp hk' with heq | hmem
          · exact heq
          · exact absurd rfl (hnot k' hmem)
        subst heq
        intro hsome
        rw [hothers' k'.uv hnot] at hsome
        obtain ⟨nm, hnm⟩ := hkept₁ hsome
        have hsame : tab'.machine ⟨k'.uv, nm⟩ = tab₁.machine ⟨k'.uv, nm⟩ :=
          machine_congr_find (hothers' k'.uv hnot)
        exact ⟨nm, hsame ▸ hnm⟩
    · rw [hothers' uv fun k₂ hk₂ => huv k₂ (List.mem_cons_of_mem k hk₂)]
      exact hothers₁ uv (huv k List.mem_cons_self)
    · rw [hreported', hreported₁]

/-- Updates change nothing when each UVE still has an alarm. -/
theorem foldlM_updateAlarm (l : List AlarmId) (acc : TabAlarms × List AlarmTrace)
    (hkept : ∀ k ∈ l, ∃ nm, (acc.1.machine ⟨k.uv, nm⟩).isSome = true) :
    l.foldlM updateAlarm acc =
      some (acc.1, acc.2 ++ l.map fun k => traceOf k.uv (acc.1.reported k.uv)) := by
  induction l generalizing acc with
  | nil => simp
  | cons k l ih =>
    obtain ⟨nm, hnm⟩ := hkept k List.mem_cons_self
    obtain ⟨alarms, halarms⟩ := Option.isSome_iff_exists.mp (isSome_find?_of_machine hnm)
    have hempty : ¬ alarms.isEmpty = true := by
      rw [isEmpty_alarms_iff halarms]
      intro hnone
      rw [hnone nm] at hnm
      cases hnm
    have hreported : acc.1.reported k.uv = almCopy alarms := by
      rw [reported_eq, halarms, Option.getD_some]
    have hstep : updateAlarm acc k =
        some (acc.1, acc.2 ++ [traceOf k.uv (acc.1.reported k.uv)]) := by
      simp [updateAlarm, send_alarm_update, halarms, hempty, hreported]
    rw [List.foldlM_cons, hstep, Option.bind_eq_bind, Option.bind_some,
      ih (acc.1, acc.2 ++ [traceOf k.uv (acc.1.reported k.uv)])
        fun k' hk' => hkept k' (List.mem_cons_of_mem k hk')]
    simp

/-- An update for a UVE that is not in `tab_alarms` any more. -/
theorem foldlM_updateAlarm_fails {l : List AlarmId} {k : AlarmId} (hk : k ∈ l)
    (acc : TabAlarms × List AlarmTrace) (hgone : acc.1.find? k.uv = none) :
    l.foldlM updateAlarm acc = none := by
  induction l generalizing acc with
  | nil => cases hk
  | cons k₁ l ih =>
    rw [List.foldlM_cons]
    cases hstep : updateAlarm acc k₁ with
    | none => rfl
    | some acc₁ =>
      rw [Option.bind_eq_bind, Option.bind_some]
      have hsent : (acc.1.find? k₁.uv).isSome = true := by
        by_contra hnone
        simp [updateAlarm, send_alarm_update, Option.not_isSome_iff_eq_none.mp hnone] at hstep
      obtain ⟨tab', hsend, -, -, hothers⟩ := send_alarm_update_spec hsent
      have hacc₁ : acc₁.1 = tab' := by
        simp only [updateAlarm, hsend, Option.bind_eq_bind, Option.bind_some,
          Option.some.injEq] at hstep
        rw [← hstep]
      have hne : k.uv ≠ k₁.uv := fun heq => by
        rw [← heq, hgone] at hsent
        cases hsent
      have hmem : k ∈ l := by
        rcases List.mem_cons.mp hk with heq | hmem
        · exact absurd (congrArg AlarmId.uv heq) hne
        · exact hmem
      exact ih hmem acc₁ (by rw [hacc₁, hothers k.uv hne, hgone])

/-- What a sweep leaves and sends. -/
structure Timed (t : AlarmTables) (curr_time : Nat) (res : AlarmTables × List AlarmTrace) : Prop where
  coherent : Coherent res.1.tab_alarms.machine res.1.tab_alarms_timer
  machine : ∀ k, res.1.tab_alarms.machine k = (t.tab_alarms.machine k).bind
    (AlarmStateMachine.sweep (sweptSeconds t.last_timers_run curr_time))
  current : ∀ trace ∈ res.2, trace = traceOf trace.uv (res.1.tab_alarms.reported trace.uv)
  sent : ∀ uv, (∃ trace ∈ res.2, trace.uv = uv) ↔ ∃ nm m, t.tab_alarms.machine ⟨uv, nm⟩ = some m ∧
    (m.sweep (sweptSeconds t.last_timers_run curr_time) = none ∨
      m.sweepUpdates (sweptSeconds t.last_timers_run curr_time) = true)
  keys : ∀ uv, t.tab_alarms.find? uv = none → res.1.tab_alarms.find? uv = none

/-- Some UVE has an update and loses all its alarms. -/
def LosesUpdated (t : AlarmTables) (cs : List Nat) : Prop :=
  ∃ k m, t.tab_alarms.machine k = some m ∧ m.sweepUpdates cs = true ∧
    ∀ nm, (t.tab_alarms.machine ⟨k.uv, nm⟩).bind (AlarmStateMachine.sweep cs) = none

section Timers

variable {t : AlarmTables} (h : Coherent t.tab_alarms.machine t.tab_alarms_timer) (order : SetOrder)
  (curr_time : Nat)
include h

/-- The deletions of a sweep succeed. -/
theorem run_alarm_timers_deleted :
    ∃ sweep tab', run_timers order curr_time t.last_timers_run t.tab_alarms t.tab_alarms_timer =
        some (sweep, curr_time + 1) ∧
      Coherent sweep.live sweep.timers ∧
      TimersRun t.tab_alarms (sweptSeconds t.last_timers_run curr_time) sweep ∧
      sweep.delete_alarms.foldlM deleteAlarm (sweep.tab_alarms, []) = some (tab',
        sweep.delete_alarms.map fun k => traceOf k.uv (sweep.tab_alarms.reported k.uv)) ∧
      (∀ k, tab'.machine k = sweep.live k) ∧ (∀ k ∈ sweep.delete_alarms, tab'.Kept k.uv) ∧
      (∀ uv, t.tab_alarms.find? uv = none → tab'.find? uv = none) ∧
      ∀ uv, tab'.reported uv = sweep.tab_alarms.reported uv := by
  obtain ⟨sweep, hrun, hcoherent, hspec⟩ := run_timers_spec h order curr_time t.last_timers_run
  obtain ⟨tab', hfold, hmachine, hkept, hothers, hreported⟩ := foldlM_deleteAlarm
    sweep.delete_alarms hspec.nodup (sweep.tab_alarms, []) (by
      intro k hk
      obtain ⟨m, hm, -⟩ := (hspec.deleted k).mp hk
      have hsome : (sweep.tab_alarms.machine k).isSome = true := by
        rw [hspec.exists_iff, hm]
        rfl
      obtain ⟨m', hm'⟩ := Option.isSome_iff_exists.mp hsome
      exact ⟨m', hm', hspec.hidden k hk m' hm'⟩)
  refine ⟨sweep, tab', hrun, hcoherent, hspec, hfold, hmachine, hkept, fun uv huv => ?_, hreported⟩
  have hnone : sweep.tab_alarms.find? uv = none := by
    rw [← Option.not_isSome_iff_eq_none, hspec.keys, huv]
    exact nofun
  rw [hothers uv, hnone]
  intro k hk heq
  obtain ⟨m, hm, -⟩ := (hspec.deleted k).mp hk
  have hsome := isSome_find?_of_machine (k := k) (by rw [hm]; rfl)
  rw [← heq, huv] at hsome
  cases hsome

/-- What a sweep does when it does not fail. -/
theorem run_alarm_timers_spec
    (hok : ¬ LosesUpdated t (sweptSeconds t.last_timers_run curr_time)) :
    ∃ res, run_alarm_timers order curr_time t = some res ∧ Timed t curr_time res := by
  obtain ⟨sweep, tab', hrun, hcoherent, hspec, hfold, hmachine, -, hkeys, hreported⟩ :=
    run_alarm_timers_deleted h order curr_time
  have hlive : ∀ k, tab'.machine k = (t.tab_alarms.machine k).bind
      (AlarmStateMachine.sweep (sweptSeconds t.last_timers_run curr_time)) := by
    intro k
    rw [hmachine, hspec.live]
  have hupdates := foldlM_updateAlarm sweep.update_alarms (tab', sweep.delete_alarms.map fun k =>
    traceOf k.uv (sweep.tab_alarms.reported k.uv)) (by
      intro k hk
      obtain ⟨m, hm, hupdate⟩ := (hspec.updated k).mp hk
      by_contra hnone
      refine hok ⟨k, m, hm, hupdate, fun nm => ?_⟩
      rw [← hlive]
      by_contra hsome
      exact hnone ⟨nm, Option.isSome_iff_ne_none.mpr hsome⟩)
  refine ⟨(⟨tab', sweep.timers, some (curr_time + 1)⟩,
    sweep.delete_alarms.map (fun k => traceOf k.uv (sweep.tab_alarms.reported k.uv)) ++
      sweep.update_alarms.map fun k => traceOf k.uv (tab'.reported k.uv)),
    by simp [run_alarm_timers, hrun, hfold, hupdates], ?_, hlive, ?_, fun uv => ?_, hkeys⟩
  · rw [show tab'.machine = sweep.live from funext hmachine]
    exact hcoherent
  · intro trace htrace
    simp only [List.mem_append, List.mem_map, hreported] at htrace ⊢
    rcases htrace with ⟨k, -, rfl⟩ | ⟨k, -, rfl⟩ <;> rfl
  · constructor
    · rintro ⟨trace, htrace, rfl⟩
      rcases List.mem_append.mp htrace with hdeleted | hupdated
      · obtain ⟨k, hk, rfl⟩ := List.mem_map.mp hdeleted
        obtain ⟨m, hm, hnone⟩ := (hspec.deleted k).mp hk
        exact ⟨k.nm, m, hm, Or.inl hnone⟩
      · obtain ⟨k, hk, rfl⟩ := List.mem_map.mp hupdated
        obtain ⟨m, hm, hupdate⟩ := (hspec.updated k).mp hk
        exact ⟨k.nm, m, hm, Or.inr hupdate⟩
    · rintro ⟨nm, m, hm, hnone | hupdate⟩
      · have hk := (hspec.deleted ⟨uv, nm⟩).mpr ⟨m, hm, hnone⟩
        exact ⟨_, List.mem_append_left _ (List.mem_map_of_mem hk), rfl⟩
      · have hk := (hspec.updated ⟨uv, nm⟩).mpr ⟨m, hm, hupdate⟩
        exact ⟨_, List.mem_append_right _ (List.mem_map_of_mem hk), rfl⟩

/-- The UVE of an update is not there any more. -/
theorem run_alarm_timers_fails
    (hlost : LosesUpdated t (sweptSeconds t.last_timers_run curr_time)) :
    run_alarm_timers order curr_time t = none := by
  obtain ⟨sweep, tab', hrun, -, hspec, hfold, hmachine, hkept, -⟩ :=
    run_alarm_timers_deleted h order curr_time
  obtain ⟨k, m, hm, hupdate, hnone⟩ := hlost
  have hdeleted : k ∈ sweep.delete_alarms := by
    have hself := hnone k.nm
    rw [show (⟨k.uv, k.nm⟩ : AlarmId) = k from rfl, hm] at hself
    exact (hspec.deleted k).mpr ⟨m, hm, hself⟩
  have hgone : tab'.find? k.uv = none := by
    by_contra hsome
    obtain ⟨nm, hnm⟩ := hkept k hdeleted (Option.isSome_iff_ne_none.mpr hsome)
    rw [hmachine, hspec.live, hnone] at hnm
    cases hnm
  have hfails := foldlM_updateAlarm_fails ((hspec.updated k).mpr ⟨m, hm, hupdate⟩)
    (tab', sweep.delete_alarms.map fun k => traceOf k.uv (sweep.tab_alarms.reported k.uv)) hgone
  simp [run_alarm_timers, hrun, hfold, hfails]

omit h in
/-- What is reported changes only for UVEs that are told. -/
theorem Timed.reported_eq {res : AlarmTables × List AlarmTrace} (hres : Timed t curr_time res)
    {uv : String} (hquiet : ∀ trace ∈ res.2, trace.uv ≠ uv) :
    res.1.tab_alarms.reported uv = t.tab_alarms.reported uv := by
  refine reported_congr fun nm => ?_
  rw [hres.machine]
  cases hm : t.tab_alarms.machine ⟨uv, nm⟩ with
  | none => rfl
  | some m =>
    have hnot : ¬ (m.sweep (sweptSeconds t.last_timers_run curr_time) = none ∨
        m.sweepUpdates (sweptSeconds t.last_timers_run curr_time) = true) := by
      intro hsent
      obtain ⟨trace, htrace, huv⟩ := (hres.sent uv).mpr ⟨nm, m, hm, hsent⟩
      exact hquiet trace htrace huv
    rw [not_or, Bool.not_eq_true] at hnot
    obtain ⟨m', hm'⟩ := Option.ne_none_iff_exists'.mp hnot.1
    rw [Option.bind_some, hm', AlarmStateMachine.sweep_unchanged hm' hnot.2]

end Timers

-- ---------------------------------------------------------------------------
-- When a sweep does what it should
-- ---------------------------------------------------------------------------

/-- A sweep that raises no exception, deletes the machines that should be gone, and
sends for each UVE whose alarms changed an update that lists its alarms. -/
def SweepOk (t : AlarmTables) (order : SetOrder) (curr_time : Nat) : Prop :=
  ∃ t' traces, run_alarm_timers order curr_time t = some (t', traces) ∧
    (∀ k, t'.tab_alarms.machine k = none ↔
      ∀ m, t.tab_alarms.machine k = some m → m.Expired curr_time) ∧
    (∀ uv, t'.tab_alarms.reported uv ≠ t.tab_alarms.reported uv → ∃ trace ∈ traces, trace.uv = uv) ∧
    ∀ trace ∈ traces, trace.alarms =
      if t'.tab_alarms.reported trace.uv = [] then none
      else some (t'.tab_alarms.reported trace.uv)

/-- No machine that should be gone has a timer which the last sweep has passed. -/
def NoneMissed (t : AlarmTables) (curr_time : Nat) : Prop :=
  ∀ k m, t.tab_alarms.machine k = some m → m.Expired curr_time →
    ∃ timeout, m.pending = some timeout ∧ t.last_timers_run.getD curr_time ≤ timeout

/-- A UVE with a machine that expires twice keeps another machine. -/
def TwiceKept (t : AlarmTables) (curr_time : Nat) : Prop :=
  ∀ k m, t.tab_alarms.machine k = some m → m.ExpiresTwice curr_time →
    ∃ nm m', t.tab_alarms.machine ⟨k.uv, nm⟩ = some m' ∧ ¬ m'.Expired curr_time

theorem lt_swept_iff (last_timers_run : Option Nat) (curr_time : Nat) {t e : Nat}
    (hstart : last_timers_run.getD curr_time ≤ t) (hle : t ≤ e) :
    e < last_timers_run.getD curr_time + (curr_time + 1 - last_timers_run.getD curr_time) ↔
      e ≤ curr_time := by
  omega

theorem le_of_expiry {m : AlarmStateMachine} {t e : Nat} (h : m.expiry t = some e) : t ≤ e := by
  unfold AlarmStateMachine.expiry at h
  split at h <;> simp only [Option.some.injEq, reduceCtorEq] at h <;> omega

/-- The machines that a sweep deletes, by their timeouts. -/
theorem swept_eq_none_iff (m : AlarmStateMachine) (last_timers_run : Option Nat) (curr_time : Nat) :
    m.sweep (sweptSeconds last_timers_run curr_time) = none ↔ m.Expired curr_time ∧
      ∃ timeout, m.pending = some timeout ∧ last_timers_run.getD curr_time ≤ timeout := by
  rw [sweptSeconds, AlarmStateMachine.sweep_range_eq_none_iff, AlarmStateMachine.expired_iff]
  constructor
  · rintro ⟨t, e, ht, hstart, he, hlt⟩
    have hle := (lt_swept_iff last_timers_run curr_time hstart (le_of_expiry he)).mp hlt
    exact ⟨⟨t, e, ht, he, hle⟩, t, ht, hstart⟩
  · rintro ⟨⟨t, e, ht, he, hle⟩, t', ht', hstart⟩
    obtain rfl := Option.some.inj (ht.symm.trans ht')
    exact ⟨t, e, ht, hstart, he,
      (lt_swept_iff last_timers_run curr_time hstart (le_of_expiry he)).mpr hle⟩

/-- A machine that a sweep deletes and asks an update for. -/
theorem swept_twice_iff {m : AlarmStateMachine} {last_timers_run : Option Nat} {curr_time : Nat}
    (hdeleted : m.sweep (sweptSeconds last_timers_run curr_time) = none) :
    m.sweepUpdates (sweptSeconds last_timers_run curr_time) = true ↔ m.ExpiresTwice curr_time := by
  obtain ⟨hexpired, t, ht, hstart⟩ := (swept_eq_none_iff m last_timers_run curr_time).mp hdeleted
  obtain ⟨t', e, ht', he, hle⟩ := (AlarmStateMachine.expired_iff m curr_time).mp hexpired
  obtain rfl := Option.some.inj (ht.symm.trans ht')
  have hte := le_of_expiry he
  rw [sweptSeconds, AlarmStateMachine.sweepUpdates_range_iff]
  constructor
  · rintro ⟨-, -, -, -, hactive | ⟨hstate, hfreq⟩⟩
    · rw [AlarmStateMachine.expiry, hactive] at he
      cases he
    · rw [AlarmStateMachine.expiry, hstate] at he
      rw [AlarmStateMachine.pending, hstate] at ht
      exact ⟨hstate, hfreq, t, ht, (Option.some.inj he).symm ▸ hle⟩
  · rintro ⟨hstate, hfreq, -⟩
    exact ⟨t, ht, hstart, by omega, Or.inr ⟨hstate, hfreq⟩⟩

theorem losesUpdated_iff {t : AlarmTables} {curr_time : Nat} (hmissed : NoneMissed t curr_time) :
    LosesUpdated t (sweptSeconds t.last_timers_run curr_time) ↔ ¬ TwiceKept t curr_time := by
  have hdeleted : ∀ k m, t.tab_alarms.machine k = some m →
      (m.sweep (sweptSeconds t.last_timers_run curr_time) = none ↔ m.Expired curr_time) := by
    intro k m hm
    rw [swept_eq_none_iff]
    exact and_iff_left_of_imp (hmissed k m hm)
  constructor
  · rintro ⟨k, m, hm, hupdate, hnone⟩ hkept
    have hself := hnone k.nm
    rw [show (⟨k.uv, k.nm⟩ : AlarmId) = k from rfl, hm] at hself
    obtain ⟨nm, m', hm', hexpired⟩ := hkept k m hm ((swept_twice_iff hself).mp hupdate)
    have hgone := hnone nm
    rw [hm'] at hgone
    exact hexpired ((hdeleted _ m' hm').mp hgone)
  · intro hkept
    unfold TwiceKept at hkept
    push Not at hkept
    obtain ⟨k, m, hm, htwice, hall⟩ := hkept
    have hself := (hdeleted k m hm).mpr (hall k.nm m hm)
    refine ⟨k, m, hm, (swept_twice_iff hself).mpr htwice, fun nm => ?_⟩
    cases hm' : t.tab_alarms.machine ⟨k.uv, nm⟩ with
    | none => rfl
    | some m' => exact (hdeleted _ m' hm').mpr (hall nm m' hm')

theorem sweepOk_iff {t : AlarmTables} (h : Coherent t.tab_alarms.machine t.tab_alarms_timer)
    (order : SetOrder) (curr_time : Nat) :
    SweepOk t order curr_time ↔ NoneMissed t curr_time ∧ TwiceKept t curr_time := by
  constructor
  · rintro ⟨t', traces, hrun, hdeletes, -, -⟩
    have hok : ¬ LosesUpdated t (sweptSeconds t.last_timers_run curr_time) := by
      intro hlost
      rw [run_alarm_timers_fails h order curr_time hlost] at hrun
      cases hrun
    obtain ⟨res, hres, hspec⟩ := run_alarm_timers_spec h order curr_time hok
    obtain rfl := Option.some.inj (hres.symm.trans hrun)
    have hmissed : NoneMissed t curr_time := by
      intro k m hm hexpired
      have hgone := (hdeletes k).mpr fun m' hm' => Option.some.inj (hm.symm.trans hm') ▸ hexpired
      rw [hspec.machine, hm, Option.bind_some, swept_eq_none_iff] at hgone
      exact hgone.2
    refine ⟨hmissed, ?_⟩
    by_contra hkept
    exact hok ((losesUpdated_iff hmissed).mpr hkept)
  · rintro ⟨hmissed, hkept⟩
    have hok : ¬ LosesUpdated t (sweptSeconds t.last_timers_run curr_time) := fun hlost =>
      (losesUpdated_iff hmissed).mp hlost hkept
    obtain ⟨⟨t', traces⟩, hres, hspec⟩ := run_alarm_timers_spec h order curr_time hok
    refine ⟨t', traces, hres, fun k => ?_, fun uv hchanged => ?_, fun trace htrace => ?_⟩
    · rw [hspec.machine]
      cases hm : t.tab_alarms.machine k with
      | none => simp
      | some m =>
        rw [Option.bind_some, swept_eq_none_iff]
        constructor
        · rintro ⟨hexpired, -⟩ m' hm'
          exact Option.some.inj hm' ▸ hexpired
        · intro hall
          exact ⟨hall m rfl, hmissed k m hm (hall m rfl)⟩
    · by_contra hquiet
      exact hchanged (hspec.reported_eq curr_time fun trace htrace huv => hquiet ⟨trace, htrace, huv⟩)
    · rw [hspec.current trace htrace]
      simp only [traceOf, List.length_eq_zero_iff]

end TfAnalytics.OpServer
