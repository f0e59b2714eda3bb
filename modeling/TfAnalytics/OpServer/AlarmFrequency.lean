import TfAnalytics.Lib.RingBuffer
import TfAnalytics.OpServer.AlarmStateMachine
import Mathlib.Data.List.Pairwise

/-!
# Alarm generator — how often an alarm is raised

`set_alarms` (alarmgen.py) logs the time of an alarm that is raised from the Idle
state in a ring of `FreqCheck_Times + 1` slots. `is_alarm_frequency_exceeded` is meant
to compare the newest of these times with the oldest. It computes their slots modulo
`FreqCheck_Times`, which is not the size of the ring, and so compares two other times,
of which the one it takes for the newest is the older one.

* `ring_reachable` — what the ring holds in any run of a machine;
* `exceeded_of_sorted` — on times that never go back the answer is yes as soon as the
  ring is full;
* `frequency_exact_iff` — when the answer is right.
-/

namespace TfAnalytics.OpServer

open TfAnalytics.Lib

-- ---------------------------------------------------------------------------
-- Runs of one machine
-- ---------------------------------------------------------------------------

/-- A machine, the timers of all machines, and the times at which it logged an alarm. -/
structure LoggedMachine where
  machine : AlarmStateMachine
  timers : TimerTable
  recorded : List Nat

/-- The calls on one machine. `elsewhere` stands for what other machines do to the timers. -/
inductive MachineCall where
  | set_uai (uai : UVEAlarmInfo)
  | set_alarms (curr_time : Nat)
  | clear_alarms (cur_time : Nat)
  | run_uve_soaking_timer (curr_time : Nat)
  | elsewhere (timers : TimerTable)

/-- The times with the one that this call of `set_alarms` logs. -/
def AlarmStateMachine.recordedBy (m : AlarmStateMachine) (recorded : List Nat) : List Nat :=
  match m.uas.state, m.uai with
  | .Idle, some uai =>
    if m.uac.FreqExceededCheck then recorded ++ [uai.timestamp / 1000000] else recorded
  | _, _ => recorded

/-- A machine that the caller is told to delete makes no more steps. -/
def LoggedMachine.step (self : AlarmId) (s : LoggedMachine) : MachineCall → Option LoggedMachine
  | .set_uai uai => some { s with machine := s.machine.set_uai uai }
  | .set_alarms curr_time => do
    let (machine, timers) ← s.machine.set_alarms s.timers self curr_time
    some ⟨machine, timers, s.machine.recordedBy s.recorded⟩
  | .clear_alarms cur_time => do
    let (machine, timers, delete_alarm) ← s.machine.clear_alarms s.timers self cur_time
    if delete_alarm then none else some { s with machine, timers }
  | .run_uve_soaking_timer curr_time => do
    let (machine, fired) ← s.machine.run_uve_soaking_timer curr_time
    if fired.delete_alarm then none else some { s with machine }
  | .elsewhere timers => some { s with timers }

def machineSystem (self : AlarmId) (uac : UVEAlarmConfig) : System LoggedMachine MachineCall :=
  ⟨⟨.init uac, .empty, []⟩, LoggedMachine.step self⟩

-- ---------------------------------------------------------------------------
-- The ring
-- ---------------------------------------------------------------------------

def UVEAlarmOperState.ring (uas : UVEAlarmOperState) : RingBuffer Nat :=
  ⟨uas.alarm_timestamp, uas.head_timestamp⟩

/-- The configuration is the one the machine was made with, and the ring has the times. -/
structure RingInv (uac : UVEAlarmConfig) (s : LoggedMachine) : Prop where
  config : s.machine.uac = uac
  holds : s.machine.uas.ring.Holds (uac.FreqCheck_Times + 1) s.recorded

section

variable {uac : UVEAlarmConfig} {s : LoggedMachine} {self : AlarmId}

theorem RingInv.of_same (h : RingInv uac s) {s' : LoggedMachine}
    (huac : s'.machine.uac = s.machine.uac) (hring : s'.machine.uas.ring = s.machine.uas.ring)
    (hrecorded : s'.recorded = s.recorded) : RingInv uac s' where
  config := huac.trans h.config
  holds := by
    rw [hring, hrecorded]
    exact h.holds

/-- Logging a time is a push. -/
theorem logTimestamp_spec {m m' : AlarmStateMachine} (h : m.logTimestamp = some m')
    (hcheck : m.uac.FreqExceededCheck = true) (hidle : m.uas.state = .Idle) (recorded : List Nat) :
    m'.uac = m.uac ∧ ∃ ts, m.recordedBy recorded = recorded ++ [ts] ∧
      m'.uas.ring = m.uas.ring.push (m.uac.FreqCheck_Times + 1) ts := by
  unfold AlarmStateMachine.logTimestamp at h
  rw [if_pos hcheck] at h
  obtain ⟨uai, huai, rfl⟩ := Option.map_eq_some_iff.mp h
  refine ⟨rfl, uai.timestamp / 1000000, ?_, rfl⟩
  rw [AlarmStateMachine.recordedBy, hidle, huai]
  exact if_pos hcheck

theorem ring_setAlarms (h : RingInv uac s) (hcheck : uac.FreqExceededCheck = true) {curr_time : Nat}
    {s' : LoggedMachine} (hstep : s.step self (.set_alarms curr_time) = some s') :
    RingInv uac s' := by
  obtain ⟨⟨machine, timers⟩, hset, heq⟩ := Option.bind_eq_some_iff.mp hstep
  injection heq with heq
  subst heq
  unfold AlarmStateMachine.set_alarms at hset
  have hrest : ∀ state, s.machine.uas.state = state → state ≠ .Idle →
      s.machine.recordedBy s.recorded = s.recorded := by
    intro state hstate hne
    unfold AlarmStateMachine.recordedBy
    rw [hstate]
    cases state <;> first | rfl | exact absurd rfl hne
  cases hstate : s.machine.uas.state with
  | Soak_Idle =>
    rw [hstate] at hset
    obtain ⟨timers', -, heq⟩ := Option.bind_eq_some_iff.mp hset
    injection heq with heq
    obtain ⟨rfl, rfl⟩ := Prod.mk.inj heq
    exact h.of_same rfl rfl (hrest _ hstate (by simp))
  | Soak_Active | Active =>
    rw [hstate] at hset
    injection hset with heq
    obtain ⟨rfl, rfl⟩ := Prod.mk.inj heq
    exact h.of_same rfl rfl (hrest _ hstate (by simp))
  | Idle =>
    rw [hstate] at hset
    obtain ⟨timers', -, hset⟩ := Option.bind_eq_some_iff.mp hset
    obtain ⟨logged, hlog, hset⟩ := Option.bind_eq_some_iff.mp hset
    obtain ⟨huac, ts, hrecorded, hring⟩ :=
      logTimestamp_spec hlog (h.config ▸ hcheck) hstate s.recorded
    -- in both branches only the state and a timeout change after the logging
    have hmachine : machine.uac = logged.uac ∧ machine.uas.ring = logged.uas.ring := by
      split at hset
      all_goals
        injection hset with heq
        obtain ⟨rfl, -⟩ := Prod.mk.inj heq
        exact ⟨rfl, rfl⟩
    constructor
    · exact (hmachine.1.trans huac).trans h.config
    · show machine.uas.ring.Holds _ (s.machine.recordedBy s.recorded)
      rw [hmachine.2, hring, hrecorded, h.config]
      exact h.holds.push (Nat.succ_pos _) ts

theorem becomeIdle_same (m : AlarmStateMachine) (timers : TimerTable) (cur_time : Nat) :
    (m.becomeIdle timers self cur_time).1.uac = m.uac ∧
      (m.becomeIdle timers self cur_time).1.uas.ring = m.uas.ring := by
  unfold AlarmStateMachine.becomeIdle
  split <;> exact ⟨rfl, rfl⟩

theorem clear_alarms_same {m : AlarmStateMachine} {timers : TimerTable} {cur_time : Nat}
    {r : AlarmStateMachine × TimerTable × Bool}
    (h : m.clear_alarms timers self cur_time = some r) :
    r.1.uac = m.uac ∧ r.1.uas.ring = m.uas.ring := by
  unfold AlarmStateMachine.clear_alarms at h
  split at h
  · obtain ⟨timers', -, heq⟩ := Option.bind_eq_some_iff.mp h
    injection heq with heq
    exact heq ▸ becomeIdle_same m timers' cur_time
  · split at h
    · injection h with heq
      exact heq ▸ becomeIdle_same m timers cur_time
    · injection h with heq
      subst heq
      exact ⟨rfl, rfl⟩
  · injection h with heq
    subst heq
    exact ⟨rfl, rfl⟩

theorem run_uve_soaking_timer_same {m : AlarmStateMachine} {curr_time : Nat}
    {r : AlarmStateMachine × AlarmStateMachine.Fired}
    (h : m.run_uve_soaking_timer curr_time = some r) :
    r.1.uac = m.uac ∧ r.1.uas.ring = m.uas.ring := by
  unfold AlarmStateMachine.run_uve_soaking_timer at h
  split at h
  · obtain ⟨t, -, rfl⟩ := Option.map_eq_some_iff.mp h
    split <;> exact ⟨rfl, rfl⟩
  · injection h with heq
    subst heq
    unfold AlarmStateMachine.run_idle_timer
    dsimp only
    split_ifs <;> exact ⟨rfl, rfl⟩
  · obtain ⟨t, -, rfl⟩ := Option.map_eq_some_iff.mp h
    exact ⟨rfl, rfl⟩
  · injection h with heq
    subst heq
    exact ⟨rfl, rfl⟩

theorem ring_clearAlarms (h : RingInv uac s) {cur_time : Nat} {s' : LoggedMachine}
    (hstep : s.step self (.clear_alarms cur_time) = some s') : RingInv uac s' := by
  obtain ⟨⟨machine, timers, delete_alarm⟩, hclear, heq⟩ := Option.bind_eq_some_iff.mp hstep
  obtain ⟨huac, hring⟩ := clear_alarms_same hclear
  cases delete_alarm with
  | true => cases heq
  | false =>
    injection heq with heq
    subst heq
    exact h.of_same huac hring rfl

theorem ring_soakingTimer (h : RingInv uac s) {curr_time : Nat} {s' : LoggedMachine}
    (hstep : s.step self (.run_uve_soaking_timer curr_time) = some s') : RingInv uac s' := by
  obtain ⟨⟨machine, fired⟩, hrun, heq⟩ := Option.bind_eq_some_iff.mp hstep
  obtain ⟨huac, hring⟩ := run_uve_soaking_timer_same hrun
  cases hdelete : fired.delete_alarm with
  | true =>
    simp only [hdelete, if_true] at heq
    cases heq
  | false =>
    simp only [hdelete] at heq
    injection heq with heq
    subst heq
    exact h.of_same huac hring rfl

theorem ring_step (h : RingInv uac s) (hcheck : uac.FreqExceededCheck = true) {call : MachineCall}
    {s' : LoggedMachine} (hstep : s.step self call = some s') : RingInv uac s' := by
  cases call with
  | set_uai uai =>
    injection hstep with heq
    subst heq
    exact h.of_same rfl rfl rfl
  | set_alarms curr_time => exact ring_setAlarms h hcheck hstep
  | clear_alarms cur_time => exact ring_clearAlarms h hstep
  | run_uve_soaking_timer curr_time => exact ring_soakingTimer h hstep
  | elsewhere timers =>
    injection hstep with heq
    subst heq
    exact h.of_same rfl rfl rfl

theorem ring_reachable (hcheck : uac.FreqExceededCheck = true)
    (h : (machineSystem self uac).Reachable s) : RingInv uac s :=
  h.invariant (P := RingInv uac) ⟨rfl, RingBuffer.holds_empty _⟩
    fun _ _ _ hinv hstep => ring_step hinv hcheck hstep

end

-- ---------------------------------------------------------------------------
-- The two times that are compared
-- ---------------------------------------------------------------------------

/-- The time that is `back` raises after the oldest of the last `times + 1`. -/
def sinceOldest (times back : Nat) (recorded : List Nat) : Nat :=
  recorded.getD (recorded.length - (times + 1) + back) 0

/-- The newest time is at most `seconds` after the one `times` raises earlier. -/
def WithinSeconds (times seconds : Nat) (recorded : List Nat) : Prop :=
  sinceOldest times times recorded ≤ sinceOldest times 0 recorded + seconds

/-- Any two of the last `times + 1` times are at most `seconds` apart. -/
def LastWithin (times seconds : Nat) (recorded : List Nat) : Prop :=
  ∀ back ≤ times, ∀ back' ≤ times,
    sinceOldest times back' recorded ≤ sinceOldest times back recorded + seconds

/-- The check does what it is for. -/
def FrequencyExact (s : LoggedMachine) : Prop :=
  s.machine.is_alarm_frequency_exceeded = true ↔
    s.machine.uac.FreqCheck_Times + 1 ≤ s.recorded.length ∧
      WithinSeconds s.machine.uac.FreqCheck_Times s.machine.uac.FreqCheck_Seconds s.recorded

/-- Which time stands in the slot `end`, after `n` raises. -/
def endBack (times n : Nat) : Nat := if n % (times + 1) = times then 1 else 0

/-- Which time stands in the slot `start`. -/
def startBack (times n : Nat) : Nat :=
  if times = 1 then endBack times n else if n % (times + 1) + 1 < times then 1 else 2

/-- The comparison that is made in place of `WithinSeconds`. -/
def ComparedWithin (times seconds : Nat) (recorded : List Nat) : Prop :=
  sinceOldest times (endBack times recorded.length) recorded ≤
    sinceOldest times (startBack times recorded.length) recorded + seconds

theorem endBack_le_startBack (times n : Nat) : endBack times n ≤ startBack times n := by
  have hone : endBack times n ≤ 1 := by
    unfold endBack
    split <;> omega
  unfold startBack
  split
  · exact Nat.le_refl _
  · split <;> omega

theorem startBack_le {times : Nat} (hpos : 1 ≤ times) (n : Nat) : startBack times n ≤ times := by
  unfold startBack
  split
  · unfold endBack
    split <;> omega
  · split <;> omega

/-- The slot `end` in the ring. -/
theorem end_slot (times n : Nat) :
    (n % (times + 1) + times) % times = (n % (times + 1) + endBack times n) % (times + 1) := by
  have hlt : n % (times + 1) < times + 1 := Nat.mod_lt _ (Nat.succ_pos times)
  unfold endBack
  generalize n % (times + 1) = head at hlt ⊢
  rw [Nat.add_mod_right]
  split
  · rename_i hlast
    rw [hlast, Nat.mod_self, Nat.mod_self]
  · rename_i hlast
    rw [Nat.add_zero, Nat.mod_eq_of_lt hlt, Nat.mod_eq_of_lt (by omega)]

/-- The slot `start` in the ring. -/
theorem start_slot {times : Nat} (hpos : 1 ≤ times) (n : Nat) :
    (n % (times + 1) + times + 1) % times =
      (n % (times + 1) + startBack times n) % (times + 1) := by
  have hlt : n % (times + 1) < times + 1 := Nat.mod_lt _ (Nat.succ_pos times)
  unfold startBack
  split
  · rename_i hone
    subst hone
    rw [← end_slot 1 n, Nat.mod_one, Nat.mod_one]
  · rename_i hone
    generalize n % (times + 1) = head at hlt ⊢
    have hshift : head + times + 1 = head + 1 + times := by omega
    rw [hshift, Nat.add_mod_right]
    split
    · rename_i hsmall
      rw [Nat.mod_eq_of_lt hsmall, Nat.mod_eq_of_lt (by omega)]
    · rename_i hsmall
      rcases Nat.lt_or_ge head times with hlast | hlast
      · have htop : head + 1 = times := by omega
        have hwrap : head + 2 = times + 1 := by omega
        rw [htop, hwrap, Nat.mod_self, Nat.mod_self]
      · have htop : head = times := by omega
        have hwrap : times + 2 = 1 + (times + 1) := by omega
        rw [htop, hwrap, Nat.add_mod_right, Nat.add_mod_left, Nat.mod_eq_of_lt (by omega),
          Nat.mod_eq_of_lt (by omega)]

-- ---------------------------------------------------------------------------
-- When the answer is right
-- ---------------------------------------------------------------------------

section

variable {uac : UVEAlarmConfig} {s : LoggedMachine} {self : AlarmId}

/-- What the check answers, in words of the times. -/
theorem RingInv.exceeded_iff (h : RingInv uac s) (hcheck : uac.FreqExceededCheck = true)
    (htimes : 1 ≤ uac.FreqCheck_Times) (hseconds : 1 ≤ uac.FreqCheck_Seconds) :
    s.machine.is_alarm_frequency_exceeded = true ↔
      uac.FreqCheck_Times + 1 ≤ s.recorded.length ∧
        ComparedWithin uac.FreqCheck_Times uac.FreqCheck_Seconds s.recorded := by
  have hlen : s.machine.uas.alarm_timestamp.length =
      min s.recorded.length (uac.FreqCheck_Times + 1) := h.holds.length
  have hhead : s.machine.uas.head_timestamp = s.recorded.length % (uac.FreqCheck_Times + 1) :=
    h.holds.next
  have hguard : ¬ (!uac.FreqExceededCheck || decide (uac.FreqCheck_Times = 0) ||
      decide (uac.FreqCheck_Seconds = 0)) = true := by
    rw [hcheck]
    simp
    omega
  unfold AlarmStateMachine.is_alarm_frequency_exceeded
  rw [h.config, if_neg hguard]
  by_cases hfull : s.recorded.length < uac.FreqCheck_Times + 1
  · rw [if_pos (by omega)]
    simp
    omega
  · rw [if_neg (by omega)]
    have hslot : ∀ back ≤ uac.FreqCheck_Times,
        s.machine.uas.alarm_timestamp.getD
          ((s.recorded.length % (uac.FreqCheck_Times + 1) + back) % (uac.FreqCheck_Times + 1)) 0 =
        sinceOldest uac.FreqCheck_Times back s.recorded := by
      intro back hback
      have hring := h.holds.slot (by omega) (k := back) (by omega)
      rw [h.holds.next] at hring
      rw [sinceOldest, List.getD_eq_getElem?_getD, List.getD_eq_getElem?_getD]
      exact congrArg (Option.getD · 0) hring
    have hend := hslot _ ((endBack_le_startBack _ _).trans (startBack_le htimes s.recorded.length))
    have hstart := hslot _ (startBack_le htimes s.recorded.length)
    rw [← end_slot] at hend
    rw [← start_slot htimes] at hstart
    dsimp only
    rw [hhead, hend, hstart, decide_eq_true_iff]
    exact ⟨fun hle => ⟨by omega, hle⟩, And.right⟩

/-- In every state of every run, whatever the times, the check is right if and only if it has too few times to
judge, or the times it compares are as far apart as the newest and the oldest one. -/
theorem frequency_exact_iff_compared (hcheck : uac.FreqExceededCheck = true)
    (htimes : 1 ≤ uac.FreqCheck_Times) (hseconds : 1 ≤ uac.FreqCheck_Seconds)
    (hs : (machineSystem self uac).Reachable s) :
    FrequencyExact s ↔
      s.recorded.length ≤ uac.FreqCheck_Times ∨
        (WithinSeconds uac.FreqCheck_Times uac.FreqCheck_Seconds s.recorded ↔
          ComparedWithin uac.FreqCheck_Times uac.FreqCheck_Seconds s.recorded) := by
  have hinv := ring_reachable hcheck hs
  unfold FrequencyExact
  rw [hinv.exceeded_iff hcheck htimes hseconds, hinv.config]
  by_cases hfull : uac.FreqCheck_Times + 1 ≤ s.recorded.length
  · have hnot : ¬ s.recorded.length ≤ uac.FreqCheck_Times := by omega
    simp only [hfull, true_and, hnot, false_or]
    exact Iff.comm
  · have hshort : s.recorded.length ≤ uac.FreqCheck_Times := by omega
    simp only [hfull, false_and, hshort, true_or]

/-- On a clock that does not go back the answer is yes from the first full ring on. -/
theorem exceeded_of_sorted (hcheck : uac.FreqExceededCheck = true) (htimes : 1 ≤ uac.FreqCheck_Times)
    (hseconds : 1 ≤ uac.FreqCheck_Seconds) (hs : (machineSystem self uac).Reachable s)
    (hsorted : s.recorded.Pairwise (· ≤ ·)) :
    s.machine.is_alarm_frequency_exceeded = true ↔ uac.FreqCheck_Times + 1 ≤ s.recorded.length := by
  rw [(ring_reachable hcheck hs).exceeded_iff hcheck htimes hseconds]
  refine ⟨And.left, fun hfull => ⟨hfull, ?_⟩⟩
  have hbacks := endBack_le_startBack uac.FreqCheck_Times s.recorded.length
  have hstart := startBack_le htimes s.recorded.length
  have hle : sinceOldest uac.FreqCheck_Times (endBack uac.FreqCheck_Times s.recorded.length) s.recorded ≤
      sinceOldest uac.FreqCheck_Times (startBack uac.FreqCheck_Times s.recorded.length) s.recorded := by
    unfold sinceOldest
    rw [List.getD_eq_getElem?_getD, List.getD_eq_getElem?_getD,
      List.getElem?_eq_getElem (by omega), List.getElem?_eq_getElem (by omega), Option.getD_some,
      Option.getD_some]
    exact hsorted.rel_get_of_le (a := ⟨_, by omega⟩) (b := ⟨_, by omega⟩)
      (Fin.mk_le_mk.mpr (Nat.add_le_add_left hbacks _))
  exact hle.trans (Nat.le_add_right _ _)

/-- The check is right where at most `FreqCheck_Times` raises are recorded, or any two of the last
ones are at most `FreqCheck_Seconds` apart. On a clock that does not go back it is right only
there: it has to have too few raises to judge, or the frequency has to be exceeded. -/
theorem frequency_exact_iff (hcheck : uac.FreqExceededCheck = true)
    (htimes : 1 ≤ uac.FreqCheck_Times) (hseconds : 1 ≤ uac.FreqCheck_Seconds)
    (hs : (machineSystem self uac).Reachable s) :
    (s.recorded.length ≤ uac.FreqCheck_Times ∨
        LastWithin uac.FreqCheck_Times uac.FreqCheck_Seconds s.recorded → FrequencyExact s) ∧
      (s.recorded.Pairwise (· ≤ ·) →
        (FrequencyExact s ↔ s.recorded.length ≤ uac.FreqCheck_Times ∨
          WithinSeconds uac.FreqCheck_Times uac.FreqCheck_Seconds s.recorded)) := by
  constructor
  · intro hcond
    rw [frequency_exact_iff_compared hcheck htimes hseconds hs]
    refine hcond.imp_right fun hlast => iff_of_true (hlast 0 (Nat.zero_le _) _ (Nat.le_refl _)) ?_
    have hstart := startBack_le htimes s.recorded.length
    exact hlast _ hstart _ ((endBack_le_startBack _ _).trans hstart)
  · intro hsorted
    have hconfig := (ring_reachable hcheck hs).config
    unfold FrequencyExact
    rw [exceeded_of_sorted hcheck htimes hseconds hs hsorted, hconfig]
    by_cases hfull : uac.FreqCheck_Times + 1 ≤ s.recorded.length
    · have hnot : ¬ s.recorded.length ≤ uac.FreqCheck_Times := by omega
      simp only [hfull, true_and, true_iff, hnot, false_or]
    · have hshort : s.recorded.length ≤ uac.FreqCheck_Times := by omega
      simp only [hfull, false_and, hshort, true_or]

end

def infoAt (time : Nat) : UVEAlarmInfo := ⟨"t", 3, time * 1000000, "", ⟨none⟩, "", false⟩

/-- Three alarms within five seconds, where the frequency is two in ten. -/
theorem frequency_exact_sample :
    ∃ s, (machineSystem ⟨"t:u", "a"⟩ ⟨0, 0, 2, 10, true⟩).run
        [.set_uai (infoAt 100), .set_alarms 100, .clear_alarms 101, .set_uai (infoAt 102),
          .set_alarms 102, .clear_alarms 103, .set_uai (infoAt 105), .set_alarms 105] = some s ∧
      s.recorded = [100, 102, 105] ∧
      FrequencyExact s ∧ s.machine.is_alarm_frequency_exceeded = true := by
  obtain ⟨s, hrun, hrecorded, hanswer⟩ : ∃ s,
      (machineSystem ⟨"t:u", "a"⟩ ⟨0, 0, 2, 10, true⟩).run
        [.set_uai (infoAt 100), .set_alarms 100, .clear_alarms 101, .set_uai (infoAt 102),
          .set_alarms 102, .clear_alarms 103, .set_uai (infoAt 105), .set_alarms 105] = some s ∧
      s.recorded = [100, 102, 105] ∧ s.machine.is_alarm_frequency_exceeded = true :=
    ⟨_, rfl, rfl, rfl⟩
  have hiff := (frequency_exact_iff rfl (by decide) (by decide)
    (System.reachable_of_run hrun)).2 (by rw [hrecorded]; decide)
  exact ⟨s, hrun, hrecorded, hiff.mpr (.inr (by rw [hrecorded]; unfold WithinSeconds; decide)),
    hanswer⟩

/-- Three alarms that are a hundred seconds apart, where the frequency is two in ten. -/
theorem not_frequencyExact :
    ∃ s, (machineSystem ⟨"t:u", "a"⟩ ⟨0, 0, 2, 10, true⟩).run
        [.set_uai (infoAt 100), .set_alarms 100, .clear_alarms 195, .set_uai (infoAt 200),
          .set_alarms 200, .clear_alarms 295, .set_uai (infoAt 300), .set_alarms 300] = some s ∧
      s.recorded = [100, 200, 300] ∧ s.machine.is_alarm_frequency_exceeded = true ∧
      ¬ FrequencyExact s := by
  refine ⟨_, rfl, rfl, rfl, ?_⟩
  intro h
  have hwithin := (h.mp rfl).2
  exact absurd hwithin (by unfold WithinSeconds; decide)

end TfAnalytics.OpServer
