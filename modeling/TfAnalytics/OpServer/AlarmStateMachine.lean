import TfAnalytics.Lib.OrderedMap
import TfAnalytics.Lib.Transition
import Mathlib.Data.Finset.Basic
import Mathlib.Data.String.Basic

/-!
# Alarm generator — alarm state machines

An alarm of a UVE (`AlarmStateMachine`, alarmgen.py) soaks before it becomes active
and before it goes away, and stays for a while after it is gone so that its
frequency can be checked. All machines share the table `tab_alarms_timer`, which has
for each second the machines whose timer expires then. `run_timers` goes through
the seconds since it was last called.

A machine is named by the key of the UVE, which begins with the table, and the type
of the alarm. The time is in seconds. `none` stands for an exception.

`Coherent` says that the table and the machines agree; `set_alarms_spec`,
`clear_alarms_spec` and `delete_timers_spec` say that the calls succeed and keep it.
-/

namespace TfAnalytics.OpServer

open TfAnalytics.Lib

-- ---------------------------------------------------------------------------
-- Alarms
-- ---------------------------------------------------------------------------

structure AlarmOperand2 where
  uve_attribute : Option String
  json_value : Option String
  deriving DecidableEq

structure AlarmCondition where
  operation : String
  operand1 : String
  operand2 : AlarmOperand2
  «variables» : List String
  deriving DecidableEq

structure AlarmMatch where
  json_operand1_value : String
  json_operand2_value : Option String
  json_variables : List (String × String)
  deriving DecidableEq

structure AlarmConditionMatch where
  condition : AlarmCondition
  «match» : List AlarmMatch
  deriving DecidableEq

structure AlarmAndList where
  and_list : List AlarmConditionMatch
  deriving DecidableEq

structure AlarmRules where
  or_list : Option (List AlarmAndList)
  deriving DecidableEq

structure UVEAlarmInfo where
  type : String
  severity : Nat
  timestamp : Nat
  token : String
  alarm_rules : AlarmRules
  description : String
  ack : Bool
  deriving DecidableEq

inductive UVEAlarmState where
  | Idle | Soak_Active | Active | Soak_Idle
  deriving DecidableEq

structure UVEAlarmConfig where
  ActiveTimer : Nat
  IdleTimer : Nat
  FreqCheck_Times : Nat
  FreqCheck_Seconds : Nat
  FreqExceededCheck : Bool
  deriving DecidableEq

structure UVEAlarmOperState where
  state : UVEAlarmState
  head_timestamp : Nat
  alarm_timestamp : List Nat
  deriving DecidableEq

structure AlarmStateMachine where
  uac : UVEAlarmConfig
  uas : UVEAlarmOperState
  uai : Option UVEAlarmInfo
  activeTimeout : Option Nat
  deleteTimeout : Option Nat
  idleTimeout : Option Nat
  deriving DecidableEq

/-- The key of the UVE and the type of the alarm. -/
structure AlarmId where
  uv : String
  nm : String
  deriving DecidableEq

/-- `tab_alarms_timer`. -/
abbrev TimerTable := OrderedMap Nat (Finset AlarmId)

/-- `tab_alarms`, by the key of the UVE and the type of the alarm. -/
abbrev TabAlarms := OrderedMap String (OrderedMap String AlarmStateMachine)

namespace AlarmStateMachine

/-- The constructor. -/
def init (uac : UVEAlarmConfig) : AlarmStateMachine :=
  ⟨uac, ⟨.Idle, 0, []⟩, none, none, none, none⟩

def setState (m : AlarmStateMachine) (state : UVEAlarmState) : AlarmStateMachine :=
  { m with uas := { m.uas with state } }

def set_uai (m : AlarmStateMachine) (uai : UVEAlarmInfo) : AlarmStateMachine :=
  { m with uai := some uai }

/-- An alarm is reported when it is active or soaks to become idle. -/
def get_uai (m : AlarmStateMachine) : Option UVEAlarmInfo :=
  match m.uas.state with
  | .Active | .Soak_Idle => m.uai
  | _ => none

-- ---------------------------------------------------------------------------
-- Setting and clearing
-- ---------------------------------------------------------------------------

/-- `tab_alarms_timer[index].discard(..)`; an empty set is deleted. -/
def _remove_timer_from_list (timers : TimerTable) (self : AlarmId) (index : Option Nat) :
    Option TimerTable := do
  let index ← index
  let entries ← timers.find? index
  if entries.erase self = ∅ then some (timers.erase index)
  else some (timers.assign index (entries.erase self))

/-- `tab_alarms_timer[timeout_value].add(..)`, after the set is created if needed. -/
def addTimer (timers : TimerTable) (self : AlarmId) (timeout_value : Nat) : TimerTable :=
  timers.assign timeout_value (insert self ((timers.find? timeout_value).getD ∅))

/-- The time of the alarm is logged in a ring of `FreqCheck_Times + 1` places, if the
frequency is checked. -/
def logTimestamp (m : AlarmStateMachine) : Option AlarmStateMachine :=
  if m.uac.FreqExceededCheck then
    m.uai.map fun uai =>
      let ts := uai.timestamp / 1000000
      let alarm_timestamp :=
        if m.uas.alarm_timestamp.length ≤ m.uas.head_timestamp then m.uas.alarm_timestamp ++ [ts]
        else m.uas.alarm_timestamp.set m.uas.head_timestamp ts
      let head_timestamp := (m.uas.head_timestamp + 1) % (m.uac.FreqCheck_Times + 1)
      { m with uas := { m.uas with alarm_timestamp, head_timestamp } }
  else some m

def is_alarm_frequency_exceeded (m : AlarmStateMachine) : Bool :=
  if !m.uac.FreqExceededCheck || m.uac.FreqCheck_Times = 0 || m.uac.FreqCheck_Seconds = 0 then false
  else if m.uas.alarm_timestamp.length < m.uac.FreqCheck_Times + 1 then false
  else
    let freqCheck_times := m.uac.FreqCheck_Times
    let head := m.uas.head_timestamp
    let start := (head + freqCheck_times + 1) % freqCheck_times
    let «end» := (head + freqCheck_times) % freqCheck_times
    m.uas.alarm_timestamp.getD «end» 0 ≤
      m.uas.alarm_timestamp.getD start 0 + m.uac.FreqCheck_Seconds

/-- A pending delete timer is removed. -/
def stopDeleteTimer (m : AlarmStateMachine) (timers : TimerTable) (self : AlarmId) :
    Option TimerTable :=
  match m.deleteTimeout with
  | none | some 0 => some timers
  | some t =>
    if (timers.find? t).isSome then _remove_timer_from_list timers self (some t) else some timers

def set_alarms (m : AlarmStateMachine) (timers : TimerTable) (self : AlarmId) (curr_time : Nat) :
    Option (AlarmStateMachine × TimerTable) :=
  match m.uas.state with
  | .Soak_Idle => do
    let timers ← _remove_timer_from_list timers self m.idleTimeout
    some (m.setState .Active, timers)
  | .Idle => do
    let timers ← m.stopDeleteTimer timers self
    let m ← m.logTimestamp
    if m.uac.ActiveTimer = 0 || m.is_alarm_frequency_exceeded then some (m.setState .Active, timers)
    else
      let timeout_value := curr_time + m.uac.ActiveTimer
      some ({ m.setState .Soak_Active with activeTimeout := some timeout_value },
        addTimer timers self timeout_value)
  | _ => some (m, timers)

/-- The machine becomes idle. It is kept for `FreqCheck_Seconds`, or to be deleted by
the caller. -/
def becomeIdle (m : AlarmStateMachine) (timers : TimerTable) (self : AlarmId) (cur_time : Nat) :
    AlarmStateMachine × TimerTable × Bool :=
  if m.uac.FreqCheck_Seconds ≠ 0 then
    let to_value := cur_time + m.uac.FreqCheck_Seconds
    ({ m.setState .Idle with deleteTimeout := some to_value }, addTimer timers self to_value, false)
  else (m.setState .Idle, timers, true)

/-- The last component says that the caller should delete the machine. -/
def clear_alarms (m : AlarmStateMachine) (timers : TimerTable) (self : AlarmId) (cur_time : Nat) :
    Option (AlarmStateMachine × TimerTable × Bool) :=
  match m.uas.state with
  | .Soak_Active => do
    let timers ← _remove_timer_from_list timers self m.activeTimeout
    some (m.becomeIdle timers self cur_time)
  | .Active =>
    if m.uac.IdleTimer = 0 then some (m.becomeIdle timers self cur_time)
    else
      let to_value := cur_time + m.uac.IdleTimer
      some ({ m.setState .Soak_Idle with idleTimeout := some to_value },
        addTimer timers self to_value, false)
  | _ => some (m, timers, false)

/-- A timer that was never set is not removed. -/
def stopTimer (timers : TimerTable) (self : AlarmId) : Option Nat → Option TimerTable
  | none | some 0 => some timers
  | some t => _remove_timer_from_list timers self (some t)

def delete_timers (m : AlarmStateMachine) (timers : TimerTable) (self : AlarmId) :
    Option TimerTable :=
  match m.uas.state with
  | .Idle => stopTimer timers self m.deleteTimeout
  | .Soak_Active => stopTimer timers self m.activeTimeout
  | .Soak_Idle => stopTimer timers self m.idleTimeout
  | .Active => some timers

-- ---------------------------------------------------------------------------
-- Timers
-- ---------------------------------------------------------------------------

/-- What a timer did: `delete_alarm`, `update_alarm` and `timeout_value`. -/
structure Fired where
  delete_alarm : Bool
  update_alarm : Bool
  timeout_value : Option Int
  deriving DecidableEq

def run_active_timer (m : AlarmStateMachine) (curr_time : Nat) :
    Option (AlarmStateMachine × Fired) :=
  m.activeTimeout.map fun t =>
    if curr_time ≥ t then (m.setState .Active, ⟨false, true, some (-1)⟩)
    else (m, ⟨false, false, none⟩)

def run_idle_timer (m : AlarmStateMachine) (curr_time : Nat) : AlarmStateMachine × Fired :=
  let idleTimerExpired : Int :=
    match m.idleTimeout with
    | none | some 0 => 0
    | some t => curr_time - t
  if idleTimerExpired ≥ 0 then
    if m.uac.FreqCheck_Seconds ≠ 0 then
      let timeout_value := curr_time + m.uac.FreqCheck_Seconds
      ({ m.setState .Idle with deleteTimeout := some timeout_value },
        ⟨false, true, some timeout_value⟩)
    else (m.setState .Idle, ⟨true, false, none⟩)
  else (m, ⟨false, false, none⟩)

def run_delete_timer (m : AlarmStateMachine) (curr_time : Nat) :
    Option (AlarmStateMachine × Fired) :=
  m.deleteTimeout.map fun t =>
    let idleTimerExpired : Int := if t > 0 then curr_time - t else 0
    (m, ⟨idleTimerExpired ≥ 0, false, none⟩)

def run_uve_soaking_timer (m : AlarmStateMachine) (curr_time : Nat) :
    Option (AlarmStateMachine × Fired) :=
  match m.uas.state with
  | .Soak_Active => m.run_active_timer curr_time
  | .Soak_Idle => some (m.run_idle_timer curr_time)
  | .Idle => m.run_delete_timer curr_time
  | .Active => some (m, ⟨false, false, none⟩)

end AlarmStateMachine

/-- `tab_alarms[uv][nm]`. -/
def TabAlarms.machine (tab_alarms : TabAlarms) (k : AlarmId) : Option AlarmStateMachine :=
  (tab_alarms.find? k.uv).bind fun alarms => alarms.find? k.nm

/-- The machine changes in place. -/
def TabAlarms.put (tab_alarms : TabAlarms) (k : AlarmId) (m : AlarmStateMachine) : TabAlarms :=
  tab_alarms.assign k.uv (((tab_alarms.find? k.uv).getD .empty).assign k.nm m)

/-- `del tab_alarms[uv][nm]`. -/
def TabAlarms.del (tab_alarms : TabAlarms) (k : AlarmId) : Option TabAlarms := do
  let alarms ← tab_alarms.find? k.uv
  let _ ← alarms.find? k.nm
  some (tab_alarms.assign k.uv (alarms.erase k.nm))

/-- A machine that has been cleared, and that the caller deletes if it should be. -/
def TabAlarms.clear (tab_alarms : TabAlarms) (k : AlarmId) (m : AlarmStateMachine)
    (delete_alarm : Bool) : Option TabAlarms :=
  if delete_alarm then (tab_alarms.put k m).del k else some (tab_alarms.put k m)

/-- The order in which a loop goes through a set. -/
structure SetOrder where
  list : Finset AlarmId → List AlarmId
  nodup : ∀ s, (list s).Nodup
  mem : ∀ s k, k ∈ list s ↔ k ∈ s

/-- The variables of `run_timers`. -/
structure Sweep where
  tab_alarms : TabAlarms
  timers : TimerTable
  delete_alarms : List AlarmId
  update_alarms : List AlarmId

/-- One machine whose timer is in the set, and what it adds to `update_timers`. -/
def fireMachine (next_timer : Nat)
    (acc : Sweep × List (AlarmId × AlarmStateMachine.Fired)) (k : AlarmId) :
    Option (Sweep × List (AlarmId × AlarmStateMachine.Fired)) := do
  let asm ← acc.1.tab_alarms.machine k
  let (asm, fired) ← asm.run_uve_soaking_timer next_timer
  let sweep := { acc.1 with
    tab_alarms := acc.1.tab_alarms.put k asm
    delete_alarms := if fired.delete_alarm then acc.1.delete_alarms ++ [k] else acc.1.delete_alarms
    update_alarms := if fired.update_alarm then acc.1.update_alarms ++ [k] else acc.1.update_alarms }
  some (sweep, acc.2 ++ [(k, fired)])

/-- The variable `asm` is only set when the machine is in the old set. -/
def update_tab_alarms_timer (tab_alarms : TabAlarms) (timers : TimerTable) (k : AlarmId)
    (curr_index : Nat) (timeout_val : Option Int) : Option TimerTable := do
  let (timers, asm) ←
    if curr_index > 0 then do
      let entries ← timers.find? curr_index
      let asm ← if k ∈ entries then (tab_alarms.machine k).map some else some none
      let entries := entries.erase k
      some (if entries = ∅ then timers.erase curr_index else timers.assign curr_index entries, asm)
    else some (timers, none)
  match timeout_val with
  | none => some timers
  | some timeout_val =>
    if timeout_val ≥ 0 then
      let entries := (timers.find? timeout_val.toNat).getD ∅
      if k ∈ entries then none
      else do
        let _ ← asm
        some (timers.assign timeout_val.toNat (insert k entries))
    else some timers

def updateTimer (next_timer : Nat) (tab_alarms : TabAlarms) (timers : TimerTable)
    (timer : AlarmId × AlarmStateMachine.Fired) : Option TimerTable :=
  if timer.2.timeout_value.isSome || timer.2.delete_alarm then
    update_tab_alarms_timer tab_alarms timers timer.1 next_timer timer.2.timeout_value
  else some timers

/-- One second of the sweep. -/
def sweepSecond (order : SetOrder) (sweep : Sweep) (next_timer : Nat) : Option Sweep :=
  match sweep.timers.find? next_timer with
  | none => some sweep
  | some entries => do
    let (sweep, update_timers) ← (order.list entries).foldlM (fireMachine next_timer) (sweep, [])
    let timers ← update_timers.foldlM (updateTimer next_timer sweep.tab_alarms) sweep.timers
    some { sweep with timers }

/-- The seconds from `last_timers_run` to `curr_time`. -/
def sweepTimers (order : SetOrder) (sweep : Sweep) (last_timers_run curr_time : Nat) :
    Option Sweep :=
  (List.range' last_timers_run (curr_time + 1 - last_timers_run)).foldlM (sweepSecond order) sweep

/-- What is left of the class variables and of `tab_alarms`, with the machines to be
deleted and to be updated. -/
def run_timers (order : SetOrder) (curr_time : Nat) (last_timers_run : Option Nat)
    (tab_alarms : TabAlarms) (timers : TimerTable) : Option (Sweep × Nat) := do
  let sweep ← sweepTimers order ⟨tab_alarms, timers, [], []⟩ (last_timers_run.getD curr_time) curr_time
  some (sweep, curr_time + 1)

-- ---------------------------------------------------------------------------
-- Looking up machines and timers
-- ---------------------------------------------------------------------------

theorem machine_put (tab_alarms : TabAlarms) (k k' : AlarmId) (m : AlarmStateMachine) :
    (tab_alarms.put k m).machine k' = if k' = k then some m else tab_alarms.machine k' := by
  unfold TabAlarms.machine TabAlarms.put
  rw [OrderedMap.find?_assign]
  obtain ⟨uv, nm⟩ := k
  obtain ⟨uv', nm'⟩ := k'
  by_cases huv : uv' = uv
  · subst huv
    simp only [if_true, Option.bind_some, OrderedMap.find?_assign, AlarmId.mk.injEq, true_and]
    by_cases hnm : nm' = nm
    · simp [hnm]
    · rw [if_neg hnm, if_neg hnm]
      cases tab_alarms.find? uv' <;> rfl
  · simp [huv]

theorem isSome_find?_of_machine {tab_alarms : TabAlarms} {k : AlarmId}
    (h : (tab_alarms.machine k).isSome = true) : (tab_alarms.find? k.uv).isSome = true := by
  obtain ⟨m, hm⟩ := Option.isSome_iff_exists.mp h
  obtain ⟨alarms, halarms, -⟩ := Option.bind_eq_some_iff.mp hm
  rw [halarms]
  rfl

/-- A machine that changes in place brings no new UVE. -/
theorem isSome_find?_put {tab_alarms : TabAlarms} {k : AlarmId}
    (h : (tab_alarms.machine k).isSome = true) (m : AlarmStateMachine) (uv : String) :
    ((tab_alarms.put k m).find? uv).isSome = (tab_alarms.find? uv).isSome := by
  rw [TabAlarms.put, OrderedMap.find?_assign]
  by_cases huv : uv = k.uv
  · rw [if_pos huv, huv, isSome_find?_of_machine h]
    rfl
  · rw [if_neg huv]

theorem machine_del {tab_alarms : TabAlarms} {k : AlarmId} {m : AlarmStateMachine}
    (h : tab_alarms.machine k = some m) :
    ∃ tab_alarms', tab_alarms.del k = some tab_alarms' ∧
      ∀ k', tab_alarms'.machine k' = if k' = k then none else tab_alarms.machine k' := by
  obtain ⟨alarms, halarms, hm⟩ := Option.bind_eq_some_iff.mp h
  refine ⟨tab_alarms.assign k.uv (alarms.erase k.nm), by simp [TabAlarms.del, halarms, hm], ?_⟩
  intro k'
  unfold TabAlarms.machine
  rw [OrderedMap.find?_assign]
  obtain ⟨uv, nm⟩ := k
  obtain ⟨uv', nm'⟩ := k'
  by_cases huv : uv' = uv
  · subst huv
    simp only [if_true, Option.bind_some, OrderedMap.find?_erase, AlarmId.mk.injEq, true_and,
      halarms]
  · simp [huv]

/-- A machine is deleted; its UVE stays, if only with no alarms. -/
theorem find?_del {tab_alarms tab_alarms' : TabAlarms} {k : AlarmId}
    (h : tab_alarms.del k = some tab_alarms') :
    (tab_alarms'.find? k.uv).isSome = true ∧
      ∀ uv, uv ≠ k.uv → tab_alarms'.find? uv = tab_alarms.find? uv := by
  unfold TabAlarms.del at h
  obtain ⟨alarms, -, h⟩ := Option.bind_eq_some_iff.mp h
  obtain ⟨m, -, h⟩ := Option.bind_eq_some_iff.mp h
  obtain rfl := Option.some.inj h
  refine ⟨?_, fun uv huv => ?_⟩
  · rw [OrderedMap.find?_assign, if_pos rfl]
    rfl
  · rw [OrderedMap.find?_assign, if_neg huv]

theorem machine_put_eq (tab_alarms : TabAlarms) (k : AlarmId) (m : AlarmStateMachine) :
    (tab_alarms.put k m).machine = Function.update tab_alarms.machine k (some m) := by
  funext k'
  rw [machine_put, Function.update_apply]

theorem exists_del {tab_alarms : TabAlarms} {k : AlarmId} {m : AlarmStateMachine}
    (h : tab_alarms.machine k = some m) :
    ∃ tab_alarms', tab_alarms.del k = some tab_alarms' ∧
      tab_alarms'.machine = Function.update tab_alarms.machine k none := by
  obtain ⟨tab_alarms', hdel, hmachine⟩ := machine_del h
  refine ⟨tab_alarms', hdel, ?_⟩
  funext k'
  rw [hmachine, Function.update_apply]

/-- A machine is changed, and deleted if it should be. -/
theorem exists_clear (tab_alarms : TabAlarms) (k : AlarmId) (m : AlarmStateMachine)
    (delete_alarm : Bool) :
    ∃ tab_alarms', tab_alarms.clear k m delete_alarm = some tab_alarms' ∧
      tab_alarms'.machine =
        Function.update tab_alarms.machine k (if delete_alarm then none else some m) := by
  have hput := machine_put_eq tab_alarms k m
  cases delete_alarm with
  | false => exact ⟨tab_alarms.put k m, rfl, hput⟩
  | true =>
    have hself : (tab_alarms.put k m).machine k = some m := by
      rw [hput, Function.update_self]
    obtain ⟨tab', hdel, htab⟩ := exists_del hself
    refine ⟨tab', hdel, ?_⟩
    rw [htab, hput, Function.update_idem]
    rfl

theorem foldlM_del (ks : List AlarmId) (hks : ks.Nodup) (tab_alarms : TabAlarms)
    (hmachine : ∀ k ∈ ks, (tab_alarms.machine k).isSome = true) :
    ∃ tab_alarms', ks.foldlM TabAlarms.del tab_alarms = some tab_alarms' ∧
      (∀ k, tab_alarms'.machine k = if k ∈ ks then none else tab_alarms.machine k) ∧
      (∀ uv, (tab_alarms'.find? uv).isSome = (tab_alarms.find? uv).isSome) ∧
      ∀ uv, (∀ k ∈ ks, uv ≠ k.uv) → tab_alarms'.find? uv = tab_alarms.find? uv := by
  induction ks generalizing tab_alarms with
  | nil => exact ⟨tab_alarms, rfl, fun k => by simp, fun _ => rfl, fun _ _ => rfl⟩
  | cons k ks ih =>
    obtain ⟨hk, hks⟩ := List.nodup_cons.mp hks
    obtain ⟨m, hm⟩ := Option.isSome_iff_exists.mp (hmachine k List.mem_cons_self)
    obtain ⟨tab₁, hdel, htab₁⟩ := machine_del hm
    obtain ⟨hsome₁, hothers₁⟩ := find?_del hdel
    obtain ⟨tab₂, hfold, htab₂, hkeys₂, hothers₂⟩ := ih hks tab₁ (by
      intro k' hk'
      have hne : k' ≠ k := fun heq => hk (heq ▸ hk')
      rw [htab₁, if_neg hne]
      exact hmachine k' (List.mem_cons_of_mem k hk'))
    refine ⟨tab₂, by rw [List.foldlM_cons, hdel, Option.bind_eq_bind, Option.bind_some, hfold],
      fun k' => ?_, fun uv => ?_, fun uv huv => ?_⟩
    · rw [htab₂, htab₁]
      by_cases hmem : k' ∈ ks
      · rw [if_pos hmem, if_pos (List.mem_cons_of_mem k hmem)]
      · rw [if_neg hmem]
        by_cases heq : k' = k
        · simp [heq]
        · rw [if_neg heq, if_neg (by simp [heq, hmem])]
    · rw [hkeys₂]
      by_cases heq : uv = k.uv
      · rw [heq, hsome₁, isSome_find?_of_machine (by rw [hm]; rfl)]
      · rw [hothers₁ uv heq]
    · rw [hothers₂ uv fun k' hk' => huv k' (List.mem_cons_of_mem k hk'),
        hothers₁ uv (huv k List.mem_cons_self)]

/-- The machines whose timer expires at `t`. -/
def TimerTable.at (timers : TimerTable) (t : Nat) : Finset AlarmId := (timers.find? t).getD ∅

/-- No set of the table is empty. -/
def TimerTable.NoEmpty (timers : TimerTable) : Prop := ∀ t, timers.find? t ≠ some ∅

theorem TimerTable.find?_of_mem {timers : TimerTable} {t : Nat} {k : AlarmId}
    (h : k ∈ timers.at t) : timers.find? t = some (timers.at t) := by
  unfold TimerTable.at at h ⊢
  cases hfind : timers.find? t with
  | none => simp [hfind] at h
  | some entries => rfl

/-- An entry is taken out of a set, which goes when it is empty. -/
def TimerTable.discard (timers : TimerTable) (t : Nat) (k : AlarmId) : TimerTable :=
  if (timers.at t).erase k = ∅ then timers.erase t else timers.assign t ((timers.at t).erase k)

theorem TimerTable.at_discard (timers : TimerTable) (t : Nat) (k : AlarmId) (t' : Nat) :
    (timers.discard t k).at t' = if t' = t then (timers.at t).erase k else timers.at t' := by
  unfold TimerTable.discard
  by_cases hempty : (timers.at t).erase k = ∅
  · rw [if_pos hempty, TimerTable.at, OrderedMap.find?_erase]
    by_cases ht : t' = t
    · rw [if_pos ht, if_pos ht, hempty]
      rfl
    · rw [if_neg ht, if_neg ht]
      rfl
  · rw [if_neg hempty, TimerTable.at, OrderedMap.find?_assign]
    by_cases ht : t' = t
    · rw [if_pos ht, if_pos ht]
      rfl
    · rw [if_neg ht, if_neg ht]
      rfl

theorem TimerTable.NoEmpty.discard {timers : TimerTable} (h : timers.NoEmpty) (t : Nat)
    (k : AlarmId) : (timers.discard t k).NoEmpty := by
  intro t'
  unfold TimerTable.discard
  by_cases hempty : (timers.at t).erase k = ∅
  · rw [if_pos hempty, OrderedMap.find?_erase]
    by_cases ht : t' = t
    · simp [ht]
    · rw [if_neg ht]
      exact h t'
  · rw [if_neg hempty, OrderedMap.find?_assign]
    by_cases ht : t' = t
    · rw [if_pos ht]
      exact fun heq => hempty (Option.some.inj heq)
    · rw [if_neg ht]
      exact h t'

theorem TimerTable.mem_addTimer (timers : TimerTable) (k : AlarmId) (t t' : Nat) (k' : AlarmId) :
    k' ∈ TimerTable.at (AlarmStateMachine.addTimer timers k t) t' ↔
      k' = k ∧ t' = t ∨ k' ∈ timers.at t' := by
  unfold AlarmStateMachine.addTimer TimerTable.at
  rw [OrderedMap.find?_assign]
  by_cases ht : t' = t
  · subst ht
    simp
  · simp [ht]

theorem TimerTable.NoEmpty.addTimer {timers : TimerTable} (h : timers.NoEmpty) (k : AlarmId)
    (t : Nat) : TimerTable.NoEmpty (AlarmStateMachine.addTimer timers k t) := by
  intro t'
  unfold AlarmStateMachine.addTimer
  rw [OrderedMap.find?_assign]
  by_cases ht : t' = t
  · rw [if_pos ht]
    exact fun heq => Finset.insert_ne_empty _ _ (Option.some.inj heq)
  · rw [if_neg ht]
    exact h t'

theorem remove_timer {timers : TimerTable} {t : Nat} {k : AlarmId} (h : k ∈ timers.at t) :
    AlarmStateMachine._remove_timer_from_list timers k (some t) = some (timers.discard t k) := by
  unfold AlarmStateMachine._remove_timer_from_list TimerTable.discard
  simp only [Option.bind_eq_bind, Option.bind_some, TimerTable.find?_of_mem h]
  split <;> rfl

-- ---------------------------------------------------------------------------
-- Machines and timers agree
-- ---------------------------------------------------------------------------

namespace AlarmStateMachine

/-- When the machine's timer expires, if it has one. -/
def pending (m : AlarmStateMachine) : Option Nat :=
  match m.uas.state with
  | .Idle => m.deleteTimeout
  | .Soak_Active => m.activeTimeout
  | .Soak_Idle => m.idleTimeout
  | .Active => none

/-- A machine that soaks has a timer; no timer is at zero. -/
structure Sound (m : AlarmStateMachine) : Prop where
  soaks : m.uas.state = .Soak_Active ∨ m.uas.state = .Soak_Idle → m.pending ≠ none
  pos : m.pending ≠ some 0

end AlarmStateMachine

/-- The machines in the timer table are those whose timer is pending. -/
structure Coherent (machine : AlarmId → Option AlarmStateMachine) (timers : TimerTable) : Prop where
  noEmpty : timers.NoEmpty
  mem : ∀ t k, k ∈ timers.at t ↔ ∃ m, machine k = some m ∧ m.pending = some t
  sound : ∀ k m, machine k = some m → m.Sound

section

variable {machine : AlarmId → Option AlarmStateMachine} {timers timers' : TimerTable} {k : AlarmId}
  {m : AlarmStateMachine}

/-- One machine changes, or goes, and its timer with it. -/
theorem Coherent.update (h : Coherent machine timers) {new : Option AlarmStateMachine}
    (hne : timers'.NoEmpty) (hself : ∀ t, k ∈ timers'.at t ↔ ∃ m, new = some m ∧ m.pending = some t)
    (hothers : ∀ t k', k' ≠ k → (k' ∈ timers'.at t ↔ k' ∈ timers.at t))
    (hsound : ∀ m, new = some m → m.Sound) :
    Coherent (Function.update machine k new) timers' := by
  refine ⟨hne, fun t k' => ?_, fun k' m hm => ?_⟩
  · by_cases hk : k' = k
    · subst hk
      rw [hself, Function.update_self]
    · rw [hothers t k' hk, h.mem, Function.update_of_ne hk]
  · by_cases hk : k' = k
    · subst hk
      rw [Function.update_self] at hm
      exact hsound m hm
    · rw [Function.update_of_ne hk] at hm
      exact h.sound k' m hm

/-- The timers without those of one machine. -/
structure Without (timers : TimerTable) (k : AlarmId) (timers' : TimerTable) : Prop where
  noEmpty : timers'.NoEmpty
  mem : ∀ t k', k' ∈ timers'.at t ↔ k' ∈ timers.at t ∧ k' ≠ k

theorem Coherent.without (h : Coherent machine timers)
    (hpending : ∀ m, machine k = some m → m.pending = none) : Without timers k timers := by
  refine ⟨h.noEmpty, fun t k' => ⟨fun hmem => ⟨hmem, ?_⟩, And.left⟩⟩
  rintro rfl
  obtain ⟨m, hm, ht⟩ := (h.mem t k').mp hmem
  rw [hpending m hm] at ht
  cases ht

theorem Coherent.without_of_none (h : Coherent machine timers) (hm : machine k = some m)
    (hpending : m.pending = none) : Without timers k timers :=
  h.without fun _ hm' => Option.some.inj (hm.symm.trans hm') ▸ hpending

theorem Coherent.discard (h : Coherent machine timers) (hm : machine k = some m) {t : Nat}
    (hpending : m.pending = some t) :
    AlarmStateMachine._remove_timer_from_list timers k (some t) = some (timers.discard t k) ∧
      Without timers k (timers.discard t k) := by
  refine ⟨remove_timer ((h.mem t k).mpr ⟨m, hm, hpending⟩), h.noEmpty.discard t k, fun t' k' => ?_⟩
  rw [TimerTable.at_discard]
  by_cases ht : t' = t
  · subst ht
    rw [if_pos rfl, Finset.mem_erase, and_comm]
  · rw [if_neg ht]
    refine ⟨fun hmem => ⟨hmem, ?_⟩, And.left⟩
    rintro rfl
    obtain ⟨m', hm', ht'⟩ := (h.mem t' k').mp hmem
    obtain rfl := Option.some.inj (hm.symm.trans hm')
    rw [hpending] at ht'
    exact ht (Option.some.inj ht').symm

/-- A machine without a timer. -/
theorem Without.coherent (hw : Without timers k timers') (h : Coherent machine timers)
    {new : Option AlarmStateMachine}
    (hnew : ∀ m, new = some m → m.pending = none ∧ m.Sound) :
    Coherent (Function.update machine k new) timers' := by
  refine h.update hw.noEmpty (fun t => ?_) (fun t k' hk => ?_) fun m hm => (hnew m hm).2
  · refine ⟨fun hmem => absurd rfl ((hw.mem t k).mp hmem).2, ?_⟩
    rintro ⟨m, hm, ht⟩
    rw [(hnew m hm).1] at ht
    cases ht
  · rw [hw.mem]
    exact and_iff_left hk

/-- A machine with a new timer. -/
theorem Without.coherent_addTimer (hw : Without timers k timers') (h : Coherent machine timers)
    {t : Nat} (hm : m.pending = some t) (hpos : 0 < t) :
    Coherent (Function.update machine k (some m)) (AlarmStateMachine.addTimer timers' k t) := by
  refine h.update (hw.noEmpty.addTimer k t) (fun t' => ?_) (fun t' k' hk => ?_) fun m' hm' => ?_
  · rw [TimerTable.mem_addTimer]
    constructor
    · rintro (⟨-, rfl⟩ | hmem)
      · exact ⟨m, rfl, hm⟩
      · exact absurd rfl ((hw.mem t' k).mp hmem).2
    · rintro ⟨m', hm', ht⟩
      obtain rfl := Option.some.inj hm'
      exact Or.inl ⟨rfl, Option.some.inj (ht.symm.trans hm)⟩
  · rw [TimerTable.mem_addTimer, hw.mem]
    simp [hk]
  · obtain rfl := Option.some.inj hm'
    refine ⟨fun _ => by simp [hm], ?_⟩
    rw [hm]
    exact fun hzero => hpos.ne' (Option.some.inj hzero)

end

-- ---------------------------------------------------------------------------
-- Setting, clearing and deleting
-- ---------------------------------------------------------------------------

section Calls

variable {machine : AlarmId → Option AlarmStateMachine} {timers : TimerTable} {k : AlarmId}
  {m : AlarmStateMachine}

/-- The timers after a call: no new ones but those set for later. -/
def LaterThan (time : Nat) (timers timers' : TimerTable) : Prop :=
  ∀ t k, k ∈ timers'.at t → k ∈ timers.at t ∨ time < t

theorem Without.laterThan {timers' : TimerTable} (hw : Without timers k timers') (time : Nat) :
    LaterThan time timers timers' :=
  fun t k' hmem => Or.inl ((hw.mem t k').mp hmem).1

theorem Without.laterThan_addTimer {timers' : TimerTable} (hw : Without timers k timers')
    {time t : Nat} (ht : time < t) :
    LaterThan time timers (AlarmStateMachine.addTimer timers' k t) := by
  intro t' k' hmem
  rcases (TimerTable.mem_addTimer timers' k t t' k').mp hmem with ⟨-, rfl⟩ | hmem
  · exact Or.inr ht
  · exact Or.inl ((hw.mem t' k').mp hmem).1

theorem stopDeleteTimer_spec (h : Coherent machine timers) (hm : machine k = some m)
    (hstate : m.uas.state = .Idle) :
    ∃ timers', m.stopDeleteTimer timers k = some timers' ∧ Without timers k timers' := by
  have hpending : m.pending = m.deleteTimeout := by
    rw [AlarmStateMachine.pending, hstate]
  unfold AlarmStateMachine.stopDeleteTimer
  match hdelete : m.deleteTimeout with
  | none => exact ⟨timers, rfl, h.without_of_none hm (hpending.trans hdelete)⟩
  | some 0 => exact absurd (hpending.trans hdelete) (h.sound k m hm).pos
  | some (t + 1) =>
    have hmem : k ∈ timers.at (t + 1) := (h.mem _ k).mpr ⟨m, hm, hpending.trans hdelete⟩
    obtain ⟨hremove, hw⟩ := h.discard hm (hpending.trans hdelete)
    refine ⟨timers.discard (t + 1) k, ?_, hw⟩
    simp only [TimerTable.find?_of_mem hmem, Option.isSome_some, if_true]
    exact hremove

theorem pending_setState_active (m : AlarmStateMachine) :
    (m.setState .Active).pending = none ∧ (m.setState .Active).Sound := by
  have hpending : (m.setState .Active).pending = none := rfl
  refine ⟨hpending, ⟨?_, by simp [hpending]⟩⟩
  rintro (hstate | hstate) <;> cases hstate

theorem set_alarms_spec (h : Coherent machine timers) (hm : machine k = some m)
    (huai : m.uai.isSome = true) (curr_time : Nat) :
    ∃ m' timers', m.set_alarms timers k curr_time = some (m', timers') ∧
      Coherent (Function.update machine k (some m')) timers' ∧ LaterThan curr_time timers timers' ∧
      m'.uai = m.uai := by
  unfold AlarmStateMachine.set_alarms
  cases hstate : m.uas.state with
  | Soak_Active =>
    refine ⟨m, timers, rfl, ?_, fun t k' hmem => Or.inl hmem, rfl⟩
    rw [← hm, Function.update_eq_self]
    exact h
  | Active =>
    refine ⟨m, timers, rfl, ?_, fun t k' hmem => Or.inl hmem, rfl⟩
    rw [← hm, Function.update_eq_self]
    exact h
  | Soak_Idle =>
    obtain ⟨t, ht⟩ := Option.ne_none_iff_exists'.mp ((h.sound k m hm).soaks (Or.inr hstate))
    have hidle : m.idleTimeout = some t := by
      rw [← ht, AlarmStateMachine.pending, hstate]
    obtain ⟨hremove, hw⟩ := h.discard hm ht
    refine ⟨m.setState .Active, timers.discard t k, by simp [hidle, hremove], ?_, hw.laterThan _, rfl⟩
    refine hw.coherent h fun m' hm' => ?_
    obtain rfl := Option.some.inj hm'
    exact pending_setState_active m
  | Idle =>
    obtain ⟨uai, hsome⟩ := Option.isSome_iff_exists.mp huai
    obtain ⟨timers', hstop, hw⟩ := stopDeleteTimer_spec h hm hstate
    obtain ⟨m', hlog, hkept⟩ : ∃ m', m.logTimestamp = some m' ∧ m'.uai = m.uai := by
      unfold AlarmStateMachine.logTimestamp
      split
      · exact ⟨_, by rw [hsome, Option.map_some], hsome.symm⟩
      · exact ⟨m, rfl, rfl⟩
    simp only [hstop, hlog, Option.bind_eq_bind, Option.bind_some]
    split
    · refine ⟨m'.setState .Active, timers', rfl, ?_, hw.laterThan _, hkept⟩
      refine hw.coherent h fun m'' hm'' => ?_
      obtain rfl := Option.some.inj hm''
      exact pending_setState_active m'
    · rename_i hsoak
      have hlater : curr_time < curr_time + m'.uac.ActiveTimer := by
        simp only [Bool.or_eq_true, decide_eq_true_eq, not_or] at hsoak
        omega
      exact ⟨_, _, rfl, hw.coherent_addTimer h rfl (by omega), hw.laterThan_addTimer hlater, hkept⟩

/-- Another alarm in the same machine. -/
theorem Coherent.set_uai (h : Coherent machine timers) (hm : machine k = some m)
    (uai : UVEAlarmInfo) : Coherent (Function.update machine k (some (m.set_uai uai))) timers := by
  refine h.update h.noEmpty (fun t => ?_) (fun t k' _ => Iff.rfl) fun m' hm' => ?_
  · rw [h.mem, hm]
    simp [AlarmStateMachine.set_uai, AlarmStateMachine.pending]
  · obtain rfl := Option.some.inj hm'
    exact ⟨(h.sound k m hm).soaks, (h.sound k m hm).pos⟩

/-- A machine that has just been created has no timer. -/
theorem Coherent.create (h : Coherent machine timers) (hnone : machine k = none)
    (uac : UVEAlarmConfig) :
    Coherent (Function.update machine k (some (AlarmStateMachine.init uac))) timers := by
  have hw : Without timers k timers := h.without fun m hm => by
    rw [hnone] at hm
    cases hm
  refine hw.coherent h fun m hm => ?_
  obtain rfl := Option.some.inj hm
  refine ⟨rfl, fun hsoak => ?_, by exact nofun⟩
  rcases hsoak with hsoak | hsoak <;> cases hsoak

/-- An alarm is set in a machine. -/
theorem set_uai_spec (h : Coherent machine timers) (hm : machine k = some m) (uai : UVEAlarmInfo)
    (curr_time : Nat) :
    ∃ m' timers', (m.set_uai uai).set_alarms timers k curr_time = some (m', timers') ∧
      Coherent (Function.update machine k (some m')) timers' ∧ LaterThan curr_time timers timers' ∧
      m'.uai = some uai := by
  obtain ⟨m', timers', hset, hcoherent, hlater, huai⟩ := set_alarms_spec (h.set_uai hm uai)
    (Function.update_self k _ _) rfl curr_time
  rw [Function.update_idem] at hcoherent
  exact ⟨m', timers', hset, hcoherent, hlater, huai⟩

theorem becomeIdle_spec {timers' : TimerTable} (h : Coherent machine timers)
    (hw : Without timers k timers') (m : AlarmStateMachine) (cur_time : Nat) :
    ∃ m' timers'' del, m.becomeIdle timers' k cur_time = (m', timers'', del) ∧
      Coherent (Function.update machine k (if del then none else some m')) timers'' ∧
      LaterThan cur_time timers timers'' ∧ m'.uai = m.uai := by
  unfold AlarmStateMachine.becomeIdle
  split
  · rename_i hfreq
    refine ⟨_, _, false, rfl, hw.coherent_addTimer h rfl (by omega), ?_, rfl⟩
    exact hw.laterThan_addTimer (by omega)
  · exact ⟨_, _, true, rfl, hw.coherent h (fun m hm => by cases hm), hw.laterThan _, rfl⟩

theorem clear_alarms_spec (h : Coherent machine timers) (hm : machine k = some m) (cur_time : Nat) :
    ∃ m' timers' del, m.clear_alarms timers k cur_time = some (m', timers', del) ∧
      Coherent (Function.update machine k (if del then none else some m')) timers' ∧
      LaterThan cur_time timers timers' ∧ m'.uai = m.uai := by
  have hunchanged : Coherent (Function.update machine k (some m)) timers := by
    rw [← hm, Function.update_eq_self]
    exact h
  unfold AlarmStateMachine.clear_alarms
  cases hstate : m.uas.state with
  | Idle => exact ⟨m, timers, false, rfl, hunchanged, fun t k' hmem => Or.inl hmem, rfl⟩
  | Soak_Idle => exact ⟨m, timers, false, rfl, hunchanged, fun t k' hmem => Or.inl hmem, rfl⟩
  | Soak_Active =>
    obtain ⟨t, ht⟩ := Option.ne_none_iff_exists'.mp ((h.sound k m hm).soaks (Or.inl hstate))
    have hactive : m.activeTimeout = some t := by
      rw [← ht, AlarmStateMachine.pending, hstate]
    obtain ⟨hremove, hw⟩ := h.discard hm ht
    obtain ⟨m', timers', del, hidle, hspec⟩ := becomeIdle_spec h hw m cur_time
    exact ⟨m', timers', del, by simp [hactive, hremove, hidle], hspec⟩
  | Active =>
    have hpending : m.pending = none := by
      rw [AlarmStateMachine.pending, hstate]
    have hw := h.without_of_none hm hpending
    by_cases hidle : m.uac.IdleTimer = 0
    · obtain ⟨m', timers', del, hbecome, hspec⟩ := becomeIdle_spec h hw m cur_time
      exact ⟨m', timers', del, by simp [hidle, hbecome], hspec⟩
    · simp only [hidle, if_false]
      refine ⟨_, _, false, rfl, hw.coherent_addTimer h rfl (by omega), ?_, rfl⟩
      exact hw.laterThan_addTimer (by omega)

/-- The machines that are deleted when their alarm is cleared: there is nothing to soak. -/
def AlarmStateMachine.GoesAtOnce (m : AlarmStateMachine) : Prop :=
  m.uac.FreqCheck_Seconds = 0 ∧
    (m.uas.state = .Soak_Active ∨ m.uas.state = .Active ∧ m.uac.IdleTimer = 0)

theorem delete_clear_alarms {m' : AlarmStateMachine} {timers' : TimerTable} {cur_time : Nat}
    {del : Bool} (h : m.clear_alarms timers k cur_time = some (m', timers', del))
    (hgoes : m.GoesAtOnce) : del = true := by
  obtain ⟨hfreq, hstate⟩ := hgoes
  unfold AlarmStateMachine.clear_alarms at h
  rcases hstate with hstate | ⟨hstate, hidle⟩
  · simp only [hstate] at h
    obtain ⟨timers₁, -, h⟩ := Option.bind_eq_some_iff.mp h
    simp only [AlarmStateMachine.becomeIdle, hfreq, ne_eq, not_true, if_false,
      Option.some.injEq, Prod.mk.injEq] at h
    exact h.2.2.symm
  · simp only [hstate, hidle, if_true, AlarmStateMachine.becomeIdle, hfreq, ne_eq, not_true,
      if_false, Option.some.injEq, Prod.mk.injEq] at h
    exact h.2.2.symm

theorem delete_timers_spec (h : Coherent machine timers) (hm : machine k = some m) :
    ∃ timers', m.delete_timers timers k = some timers' ∧
      Coherent (Function.update machine k none) timers' ∧ ∀ time, LaterThan time timers timers' := by
  have hstop : ∃ timers', AlarmStateMachine.stopTimer timers k m.pending = some timers' ∧
      Without timers k timers' := by
    match hpending : m.pending with
    | none => exact ⟨timers, rfl, h.without_of_none hm hpending⟩
    | some 0 => exact absurd hpending (h.sound k m hm).pos
    | some (t + 1) =>
      obtain ⟨hremove, hw⟩ := h.discard hm hpending
      exact ⟨_, hremove, hw⟩
  obtain ⟨timers', hstopped, hw⟩ := hstop
  have hdelete : m.delete_timers timers k = AlarmStateMachine.stopTimer timers k m.pending := by
    unfold AlarmStateMachine.delete_timers AlarmStateMachine.pending
    cases m.uas.state <;> rfl
  exact ⟨timers', hdelete.trans hstopped, hw.coherent h (fun m hm => by cases hm), hw.laterThan⟩

end Calls

end TfAnalytics.OpServer
