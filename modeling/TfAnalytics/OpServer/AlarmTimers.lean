import TfAnalytics.OpServer.AlarmStateMachine

/-!
# Alarm generator — the timers of the alarms

What a sweep of `run_timers` does to each machine, and runs of all the calls on
alarm state machines.

* `run_timers_spec`: what a sweep does to each machine, and that it does not fail;
* `coherent_step`: what one call does to the timer table;
* `timers_coherent`: the table and the machines agree in every run in which the first
  sweep is not late.
-/

namespace TfAnalytics.OpServer

open TfAnalytics.Lib

-- ---------------------------------------------------------------------------
-- One second of a sweep
-- ---------------------------------------------------------------------------

namespace AlarmStateMachine

/-- What the timer of a machine does when it expires. -/
def fired (m : AlarmStateMachine) (c : Nat) : AlarmStateMachine × Fired :=
  match m.uas.state with
  | .Soak_Active => (m.setState .Active, ⟨false, true, some (-1)⟩)
  | .Soak_Idle =>
    if m.uac.FreqCheck_Seconds ≠ 0 then
      ({ m.setState .Idle with deleteTimeout := some (c + m.uac.FreqCheck_Seconds) },
        ⟨false, true, some (c + m.uac.FreqCheck_Seconds : Nat)⟩)
    else (m.setState .Idle, ⟨true, false, none⟩)
  | .Idle => (m, ⟨true, false, none⟩)
  | .Active => (m, ⟨false, false, none⟩)

/-- The machine after one second; `none` when it is to be deleted. -/
def fireAt (c : Nat) (m : AlarmStateMachine) : Option AlarmStateMachine :=
  if m.pending = some c then
    if (m.fired c).2.delete_alarm then none else some (m.fired c).1
  else some m

theorem run_uve_soaking_timer_eq {m : AlarmStateMachine} {c : Nat} (h : m.pending = some c) :
    m.run_uve_soaking_timer c = some (m.fired c) := by
  unfold pending at h
  unfold run_uve_soaking_timer fired
  cases hstate : m.uas.state with
  | Active => rfl
  | Soak_Active =>
    rw [hstate] at h
    simp [run_active_timer, h]
  | Idle =>
    rw [hstate] at h
    simp [run_delete_timer, h]
  | Soak_Idle =>
    rw [hstate] at h
    have hidle : m.idleTimeout = some c := h
    cases c with
    | zero => simp [run_idle_timer, hidle]
    | succ c => simp [run_idle_timer, hidle]

/-- A machine that is deleted is idle. -/
theorem get_uai_fired {m : AlarmStateMachine} {c : Nat} (h : (m.fired c).2.delete_alarm = true) :
    (m.fired c).1.get_uai = none := by
  unfold fired at h ⊢
  cases hstate : m.uas.state with
  | Active => simp [hstate] at h
  | Soak_Active => simp [hstate] at h
  | Idle => simp [get_uai, hstate]
  | Soak_Idle =>
    by_cases hfreq : m.uac.FreqCheck_Seconds = 0
    · simp [hfreq, get_uai, setState]
    · simp [hstate, hfreq] at h

theorem uai_fired (m : AlarmStateMachine) (c : Nat) : (m.fired c).1.uai = m.uai := by
  unfold fired
  cases m.uas.state with
  | Active => rfl
  | Soak_Active => rfl
  | Idle => rfl
  | Soak_Idle =>
    by_cases hfreq : m.uac.FreqCheck_Seconds = 0 <;> simp [hfreq, setState]

/-- The machine that is left after its timer expired has no timer but the one that
was set just now. -/
theorem fired_spec {m : AlarmStateMachine} {c : Nat} (h : m.pending = some c) :
    ((m.fired c).2.timeout_value.isSome || (m.fired c).2.delete_alarm) = true ∧
      (∀ v, (m.fired c).2.timeout_value = some v → v < 0 ∨ ∃ t : Nat, v = t ∧ c < t) ∧
      ((m.fired c).2.delete_alarm = true → (m.fired c).2.timeout_value = none) ∧
      ((m.fired c).2.delete_alarm = false → (m.fired c).1.Sound ∧
        ∀ t : Nat, (m.fired c).1.pending = some t ↔ (m.fired c).2.timeout_value = some (t : Int)) := by
  unfold fired
  cases hstate : m.uas.state with
  | Active =>
    rw [pending, hstate] at h
    cases h
  | Idle => simp
  | Soak_Active =>
    refine ⟨rfl, ?_, (fun hdel => by cases hdel),
      fun _ => ⟨(pending_setState_active m).2, fun t => ?_⟩⟩
    · rintro v hv
      obtain rfl := Option.some.inj hv
      exact Or.inl (by decide)
    · rw [(pending_setState_active m).1]
      constructor
      · intro hnone
        cases hnone
      · intro hv
        have := Option.some.inj hv
        omega
  | Soak_Idle =>
    by_cases hfreq : m.uac.FreqCheck_Seconds = 0
    · simp [hfreq]
    · simp only [ne_eq, hfreq, not_false_eq_true, if_true]
      refine ⟨rfl, ?_, (fun hdel => by cases hdel), fun _ => ⟨⟨?_, ?_⟩, fun t => ?_⟩⟩
      · rintro v hv
        exact Or.inr ⟨_, (Option.some.inj hv).symm, by omega⟩
      · rintro (hsoak | hsoak) <;> cases hsoak
      · intro hzero
        have : c + m.uac.FreqCheck_Seconds = 0 := Option.some.inj hzero
        omega
      · change some (c + m.uac.FreqCheck_Seconds) = some t ↔ _
        simp only [Option.some.injEq]
        omega

end AlarmStateMachine

/-- The machines that are not yet to be deleted. -/
def Sweep.live (sweep : Sweep) (k : AlarmId) : Option AlarmStateMachine :=
  if k ∈ sweep.delete_alarms then none else sweep.tab_alarms.machine k

/-- What the timer of the machine does in this second. -/
def firedOf (tab_alarms : TabAlarms) (c : Nat) (k : AlarmId) : AlarmStateMachine.Fired :=
  ((tab_alarms.machine k).map fun m => (m.fired c).2).getD ⟨false, false, none⟩

theorem append_filter_cons {α : Type} (l₀ : List α) (p : α → Bool) (a : α) (l : List α) :
    (if p a then l₀ ++ [a] else l₀) ++ l.filter p = l₀ ++ (a :: l).filter p := by
  by_cases hp : p a <;> simp [hp]

/-- The first inner loop. -/
theorem foldlM_fireMachine {c : Nat} (tab_alarms : TabAlarms) (l : List AlarmId) (hl : l.Nodup)
    (hpending : ∀ k ∈ l, ∃ m, tab_alarms.machine k = some m ∧ m.pending = some c)
    (acc : Sweep × List (AlarmId × AlarmStateMachine.Fired))
    (hsame : ∀ k ∈ l, acc.1.tab_alarms.machine k = tab_alarms.machine k) :
    ∃ tab', l.foldlM (fireMachine c) acc = some
        (⟨tab', acc.1.timers,
          acc.1.delete_alarms ++ l.filter fun k => (firedOf tab_alarms c k).delete_alarm,
          acc.1.update_alarms ++ l.filter fun k => (firedOf tab_alarms c k).update_alarm⟩,
          acc.2 ++ l.map fun k => (k, firedOf tab_alarms c k)) ∧
      (∀ k, tab'.machine k =
        if k ∈ l then (tab_alarms.machine k).map fun m => (m.fired c).1
        else acc.1.tab_alarms.machine k) ∧
      ∀ uv, (tab'.find? uv).isSome = (acc.1.tab_alarms.find? uv).isSome := by
  induction l generalizing acc with
  | nil => exact ⟨acc.1.tab_alarms, by simp, fun k => by simp, fun _ => rfl⟩
  | cons k l ih =>
    obtain ⟨m, hm, ht⟩ := hpending k List.mem_cons_self
    have hfired : firedOf tab_alarms c k = (m.fired c).2 := by
      rw [firedOf, hm]
      rfl
    -- the first alarm fires and is put back
    have hstep : fireMachine c acc k = some
        (⟨acc.1.tab_alarms.put k (m.fired c).1, acc.1.timers,
          if (m.fired c).2.delete_alarm then acc.1.delete_alarms ++ [k] else acc.1.delete_alarms,
          if (m.fired c).2.update_alarm then acc.1.update_alarms ++ [k] else acc.1.update_alarms⟩,
          acc.2 ++ [(k, (m.fired c).2)]) := by
      unfold fireMachine
      rw [hsame k List.mem_cons_self, hm]
      simp [AlarmStateMachine.run_uve_soaking_timer_eq ht]
    obtain ⟨hk, hl⟩ := List.nodup_cons.mp hl
    -- the others are as they were, as it is not among them
    obtain ⟨tab', hfold, htab, hkeys⟩ := ih hl (fun k' hk' => hpending k' (List.mem_cons_of_mem k hk'))
      (⟨acc.1.tab_alarms.put k (m.fired c).1, acc.1.timers,
          if (m.fired c).2.delete_alarm then acc.1.delete_alarms ++ [k] else acc.1.delete_alarms,
          if (m.fired c).2.update_alarm then acc.1.update_alarms ++ [k] else acc.1.update_alarms⟩,
          acc.2 ++ [(k, (m.fired c).2)]) (by
        intro k' hk'
        have hne : k' ≠ k := fun heq => hk (heq ▸ hk')
        rw [machine_put, if_neg hne]
        exact hsame k' (List.mem_cons_of_mem k hk'))
    refine ⟨tab', ?_, fun k' => ?_, fun uv => ?_⟩
    · rw [List.foldlM_cons, hstep, Option.bind_eq_bind, Option.bind_some, hfold]
      simp only [← hfired, append_filter_cons _ fun k => (firedOf tab_alarms c k).delete_alarm,
        append_filter_cons _ fun k => (firedOf tab_alarms c k).update_alarm, List.map_cons,
        List.append_assoc, List.singleton_append]
    · rw [htab]
      by_cases hk' : k' ∈ l
      · rw [if_pos hk', if_pos (List.mem_cons_of_mem k hk')]
      · rw [if_neg hk']
        simp only [machine_put]
        by_cases heq : k' = k
        · subst heq
          simp [hm]
        · rw [if_neg heq, if_neg (by simp [heq, hk'])]
    · rw [hkeys]
      exact isSome_find?_put (by rw [hsame k List.mem_cons_self, hm]; rfl) (m.fired c).1 uv

/-- A timer after it has expired: taken out of its set, and put into another. -/
def TimerTable.move (timers : TimerTable) (c : Nat) (k : AlarmId) : Option Int → TimerTable
  | none => timers.discard c k
  | some v =>
    if v ≥ 0 then AlarmStateMachine.addTimer (timers.discard c k) k v.toNat else timers.discard c k

theorem TimerTable.NoEmpty.move {timers : TimerTable} (h : timers.NoEmpty) (c : Nat) (k : AlarmId)
    (timeout_val : Option Int) : (timers.move c k timeout_val).NoEmpty := by
  unfold TimerTable.move
  split
  · exact h.discard c k
  · split
    · exact (h.discard c k).addTimer k _
    · exact h.discard c k

theorem TimerTable.mem_discard (timers : TimerTable) (c : Nat) (k : AlarmId) (t : Nat) (k' : AlarmId) :
    k' ∈ (timers.discard c k).at t ↔ k' ∈ timers.at t ∧ ¬ (k' = k ∧ t = c) := by
  rw [TimerTable.at_discard]
  by_cases ht : t = c
  · subst ht
    simp [and_comm]
  · simp [ht]

theorem TimerTable.mem_move (timers : TimerTable) (c : Nat) (k : AlarmId) (timeout_val : Option Int)
    (t : Nat) (k' : AlarmId) :
    k' ∈ (timers.move c k timeout_val).at t ↔
      k' ∈ timers.at t ∧ ¬ (k' = k ∧ t = c) ∨ k' = k ∧ timeout_val = some (t : Int) := by
  unfold TimerTable.move
  match timeout_val with
  | none => simp [TimerTable.mem_discard]
  | some v =>
    simp only [Option.some.injEq]
    by_cases hv : v ≥ 0
    · rw [if_pos hv, TimerTable.mem_addTimer, TimerTable.mem_discard, or_comm]
      have htoNat : t = v.toNat ↔ v = t := by omega
      rw [htoNat]
    · rw [if_neg hv, TimerTable.mem_discard]
      have hne : v ≠ t := by omega
      simp [hne]

theorem update_tab_alarms_timer_eq {tab_alarms : TabAlarms} {timers : TimerTable} {k : AlarmId}
    {c : Nat} (hc : 0 < c) (hk : k ∈ timers.at c) (hm : (tab_alarms.machine k).isSome = true)
    {timeout_val : Option Int}
    (hnew : ∀ t : Nat, timeout_val = some (t : Int) → k ∉ (timers.discard c k).at t) :
    update_tab_alarms_timer tab_alarms timers k c timeout_val =
      some (timers.move c k timeout_val) := by
  obtain ⟨m, hm⟩ := Option.isSome_iff_exists.mp hm
  have hdiscard : (if (timers.at c).erase k = ∅ then timers.erase c
      else timers.assign c ((timers.at c).erase k)) = timers.discard c k := rfl
  unfold update_tab_alarms_timer TimerTable.move
  simp only [hc, if_true, TimerTable.find?_of_mem hk, hk, hm, Option.map_some, Option.bind_eq_bind,
    Option.bind_some, hdiscard]
  cases timeout_val with
  | none => rfl
  | some v =>
    by_cases hv : v ≥ 0
    · have hnot : k ∉ ((timers.discard c k).find? v.toNat).getD ∅ :=
        hnew v.toNat (by rw [Int.toNat_of_nonneg hv])
      simp only [hv, if_true, hnot, if_false]
      rfl
    · simp only [hv, if_false]

/-- The second inner loop. -/
theorem foldlM_updateTimer {c : Nat} (hc : 0 < c) (tab_alarms : TabAlarms)
    {f : AlarmId → AlarmStateMachine.Fired} (l : List AlarmId) (hl : l.Nodup)
    (hmachine : ∀ k ∈ l, (tab_alarms.machine k).isSome = true)
    (hfired : ∀ k ∈ l, ((f k).timeout_value.isSome || (f k).delete_alarm) = true)
    (hlater : ∀ k ∈ l, ∀ t : Nat, (f k).timeout_value = some (t : Int) → c < t)
    (timers : TimerTable) (hne : timers.NoEmpty)
    (hin : ∀ k ∈ l, ∀ t, k ∈ timers.at t ↔ t = c) :
    ∃ timers', (l.map fun k => (k, f k)).foldlM (updateTimer c tab_alarms) timers = some timers' ∧
      timers'.NoEmpty ∧ ∀ t k, k ∈ timers'.at t ↔
        k ∉ l ∧ k ∈ timers.at t ∨ k ∈ l ∧ (f k).timeout_value = some (t : Int) := by
  induction l generalizing timers with
  | nil => exact ⟨timers, rfl, hne, fun t k => by simp⟩
  | cons k l ih =>
    obtain ⟨hk, hl⟩ := List.nodup_cons.mp hl
    have hself := hin k List.mem_cons_self
    have hnew : ∀ t : Nat, (f k).timeout_value = some (t : Int) → k ∉ (timers.discard c k).at t := by
      intro t ht hmem
      have hlt := hlater k List.mem_cons_self t ht
      rw [TimerTable.mem_discard, hself] at hmem
      omega
    have hstep : updateTimer c tab_alarms timers (k, f k) =
        some (timers.move c k (f k).timeout_value) := by
      rw [updateTimer, if_pos (hfired k List.mem_cons_self)]
      exact update_tab_alarms_timer_eq hc ((hself c).mpr rfl) (hmachine k List.mem_cons_self) hnew
    have hothers : ∀ k' ∈ l, ∀ t, k' ∈ (timers.move c k (f k).timeout_value).at t ↔ t = c := by
      intro k' hk' t
      have hne : k' ≠ k := fun heq => hk (heq ▸ hk')
      rw [TimerTable.mem_move]
      simp [hne, hin k' (List.mem_cons_of_mem k hk')]
    obtain ⟨timers', hfold, hne', hmem⟩ := ih hl
      (fun k' hk' => hmachine k' (List.mem_cons_of_mem k hk'))
      (fun k' hk' => hfired k' (List.mem_cons_of_mem k hk'))
      (fun k' hk' => hlater k' (List.mem_cons_of_mem k hk')) _ (hne.move c k _) hothers
    refine ⟨timers', ?_, hne', fun t k' => ?_⟩
    · rw [List.map_cons, List.foldlM_cons, hstep, Option.bind_eq_bind, Option.bind_some, hfold]
    · rw [hmem, TimerTable.mem_move]
      by_cases heq : k' = k
      · subst heq
        simp only [hk, not_false_eq_true, true_and, false_and, or_false, List.mem_cons,
          not_true, false_or, hself]
        exact ⟨fun h => h.resolve_left fun ⟨ht, hnot⟩ => hnot ht, Or.inr⟩
      · simp [heq]

/-- The machines to be deleted are not reported. -/
def Sweep.Hidden (sweep : Sweep) : Prop :=
  ∀ k ∈ sweep.delete_alarms, ∀ m, sweep.tab_alarms.machine k = some m → m.get_uai = none

/-- One second of a sweep, machine by machine. -/
structure SweptSecond (c : Nat) (sweep sweep' : Sweep) : Prop where
  live : ∀ k, sweep'.live k = (sweep.live k).bind (AlarmStateMachine.fireAt c)
  exists_iff : ∀ k, (sweep'.tab_alarms.machine k).isSome = (sweep.tab_alarms.machine k).isSome
  keys : ∀ uv, (sweep'.tab_alarms.find? uv).isSome = (sweep.tab_alarms.find? uv).isSome
  deleted : ∃ ds, sweep'.delete_alarms = sweep.delete_alarms ++ ds ∧ ds.Nodup ∧
    ∀ k, k ∈ ds ↔ ∃ m, sweep.live k = some m ∧ m.fireAt c = none
  updated : ∃ us, sweep'.update_alarms = sweep.update_alarms ++ us ∧
    ∀ k, k ∈ us ↔ ∃ m, sweep.live k = some m ∧ m.pending = some c ∧ (m.fired c).2.update_alarm = true
  hidden : sweep.Hidden → sweep'.Hidden

theorem fireAt_of_ne {c : Nat} {m : AlarmStateMachine} (h : m.pending ≠ some c) :
    m.fireAt c = some m := by
  rw [AlarmStateMachine.fireAt, if_neg h]

/-- Every machine whose timer expires in this second fires. -/
theorem Coherent.fireAt {machine : AlarmId → Option AlarmStateMachine} {timers timers' : TimerTable}
    (h : Coherent machine timers) {c : Nat} (hne : timers'.NoEmpty)
    (hmem : ∀ t k, k ∈ timers'.at t ↔
      (∃ m, machine k = some m ∧ m.pending ≠ some c ∧ m.pending = some t) ∨
      ∃ m, machine k = some m ∧ m.pending = some c ∧ (m.fired c).2.timeout_value = some (t : Int)) :
    Coherent (fun k => (machine k).bind (AlarmStateMachine.fireAt c)) timers' := by
  refine ⟨hne, fun t k => ?_, fun k m' hm' => ?_⟩
  · rw [hmem]
    constructor
    · rintro (⟨m, hm, hnot, ht⟩ | ⟨m, hm, hc, ht⟩)
      · exact ⟨m, by rw [hm, Option.bind_some, fireAt_of_ne hnot], ht⟩
      · obtain ⟨-, -, hdeleted, hleft⟩ := AlarmStateMachine.fired_spec hc
        have hdel : (m.fired c).2.delete_alarm = false := by
          by_contra hdel
          rw [hdeleted (by simpa using hdel)] at ht
          cases ht
        refine ⟨(m.fired c).1, ?_, ((hleft hdel).2 t).mpr ht⟩
        rw [hm, Option.bind_some, AlarmStateMachine.fireAt, if_pos hc, hdel]
        rfl
    · rintro ⟨m', hm', ht⟩
      obtain ⟨m, hm, hfire⟩ := Option.bind_eq_some_iff.mp hm'
      by_cases hc : m.pending = some c
      · rw [AlarmStateMachine.fireAt, if_pos hc] at hfire
        split at hfire
        · cases hfire
        · rename_i hdel
          obtain rfl := Option.some.inj hfire
          have hleft := (AlarmStateMachine.fired_spec hc).2.2.2 (by simpa using hdel)
          exact Or.inr ⟨m, hm, hc, (hleft.2 t).mp ht⟩
      · rw [fireAt_of_ne hc] at hfire
        obtain rfl := Option.some.inj hfire
        exact Or.inl ⟨m, hm, hc, ht⟩
  · obtain ⟨m, hm, hfire⟩ := Option.bind_eq_some_iff.mp hm'
    by_cases hc : m.pending = some c
    · rw [AlarmStateMachine.fireAt, if_pos hc] at hfire
      split at hfire
      · cases hfire
      · rename_i hdel
        obtain rfl := Option.some.inj hfire
        exact ((AlarmStateMachine.fired_spec hc).2.2.2 (by simpa using hdel)).1
    · rw [fireAt_of_ne hc] at hfire
      obtain rfl := Option.some.inj hfire
      exact h.sound k m hm

theorem Sweep.machine_of_live {sweep : Sweep} {k : AlarmId} {m : AlarmStateMachine}
    (h : sweep.live k = some m) :
    k ∉ sweep.delete_alarms ∧ sweep.tab_alarms.machine k = some m := by
  unfold Sweep.live at h
  split at h
  · cases h
  · exact ⟨‹_›, h⟩

theorem firedOf_live {sweep : Sweep} {c : Nat} {k : AlarmId} {m : AlarmStateMachine}
    (h : sweep.live k = some m) : firedOf sweep.tab_alarms c k = (m.fired c).2 := by
  rw [firedOf, (Sweep.machine_of_live h).2]
  rfl

section Second

variable {sweep : Sweep} {c : Nat} {l : List AlarmId}
  (hlist : ∀ k, k ∈ l ↔ ∃ m, sweep.live k = some m ∧ m.pending = some c)
include hlist

theorem pending_of_mem {k : AlarmId} {m : AlarmStateMachine} (hm : sweep.live k = some m) :
    k ∈ l ↔ m.pending = some c := by
  rw [hlist, hm]
  constructor
  · rintro ⟨m', hm', ht⟩
    obtain rfl := Option.some.inj hm'
    exact ht
  · exact fun ht => ⟨m, rfl, ht⟩

theorem mem_deleted (k : AlarmId) :
    k ∈ l.filter (fun k => (firedOf sweep.tab_alarms c k).delete_alarm) ↔
      ∃ m, sweep.live k = some m ∧ m.fireAt c = none := by
  rw [List.mem_filter, hlist]
  constructor
  · rintro ⟨⟨m, hm, ht⟩, hdel⟩
    rw [firedOf_live hm] at hdel
    exact ⟨m, hm, by rw [AlarmStateMachine.fireAt, if_pos ht, if_pos hdel]⟩
  · rintro ⟨m, hm, hfire⟩
    by_cases ht : m.pending = some c
    · rw [AlarmStateMachine.fireAt, if_pos ht] at hfire
      refine ⟨⟨m, hm, ht⟩, ?_⟩
      rw [firedOf_live hm]
      by_contra hdel
      rw [if_neg hdel] at hfire
      cases hfire
    · rw [fireAt_of_ne ht] at hfire
      cases hfire

theorem mem_updated (k : AlarmId) :
    k ∈ l.filter (fun k => (firedOf sweep.tab_alarms c k).update_alarm) ↔
      ∃ m, sweep.live k = some m ∧ m.pending = some c ∧ (m.fired c).2.update_alarm = true := by
  rw [List.mem_filter, hlist]
  constructor
  · rintro ⟨⟨m, hm, ht⟩, hupd⟩
    exact ⟨m, hm, ht, by rw [← firedOf_live hm, hupd]⟩
  · rintro ⟨m, hm, ht, hupd⟩
    exact ⟨⟨m, hm, ht⟩, by rw [firedOf_live hm, hupd]⟩

/-- The machines after the inner loops. -/
theorem live_fired (sweep' : Sweep)
    (htab : ∀ k, sweep'.tab_alarms.machine k =
      if k ∈ l then (sweep.tab_alarms.machine k).map fun m => (m.fired c).1
      else sweep.tab_alarms.machine k)
    (hdelete : sweep'.delete_alarms = sweep.delete_alarms ++
      l.filter fun k => (firedOf sweep.tab_alarms c k).delete_alarm) (k : AlarmId) :
    sweep'.live k = (sweep.live k).bind (AlarmStateMachine.fireAt c) := by
  rw [Sweep.live, hdelete, htab]
  cases hm : sweep.live k with
  | none =>
    have hnot : k ∉ l := by
      rw [hlist, hm]
      rintro ⟨m, heq, -⟩
      cases heq
    rw [if_neg hnot]
    split
    · rfl
    · rename_i hdel
      rw [Sweep.live, if_neg fun hmem => hdel (List.mem_append_left _ hmem)] at hm
      rw [hm]
      rfl
  | some m =>
    obtain ⟨hdel, hmachine⟩ := Sweep.machine_of_live hm
    rw [Option.bind_some]
    cases hleft : m.fireAt c with
    | none => rw [if_pos (List.mem_append_right _ ((mem_deleted hlist k).mpr ⟨m, hm, hleft⟩))]
    | some m' =>
      have hkept : k ∉ sweep.delete_alarms ++
          l.filter (fun k => (firedOf sweep.tab_alarms c k).delete_alarm) := by
        rw [List.mem_append, mem_deleted hlist]
        rintro (hmem | ⟨m₁, hm₁, hnone⟩)
        · exact hdel hmem
        · obtain rfl := Option.some.inj (hm.symm.trans hm₁)
          rw [hleft] at hnone
          cases hnone
      rw [if_neg hkept, hmachine, Option.map_some]
      by_cases ht : m.pending = some c
      · rw [if_pos ((pending_of_mem hlist hm).mpr ht)]
        rw [AlarmStateMachine.fireAt, if_pos ht] at hleft
        split at hleft
        · cases hleft
        · exact hleft
      · rw [if_neg (mt (pending_of_mem hlist hm).mp ht), ← hleft, fireAt_of_ne ht]

/-- A machine that is deleted has become idle, and a machine deleted before stays as it is. -/
theorem hidden_fired {sweep' : Sweep}
    (htab : ∀ k, sweep'.tab_alarms.machine k =
      if k ∈ l then (sweep.tab_alarms.machine k).map fun m => (m.fired c).1
      else sweep.tab_alarms.machine k)
    (hdelete : sweep'.delete_alarms = sweep.delete_alarms ++
      l.filter fun k => (firedOf sweep.tab_alarms c k).delete_alarm)
    (h : sweep.Hidden) : sweep'.Hidden := by
  intro k hk m' hm'
  rw [hdelete, List.mem_append] at hk
  rw [htab] at hm'
  by_cases hl : k ∈ l
  · obtain ⟨m, hm, ht⟩ := (hlist k).mp hl
    obtain ⟨hkept, hmachine⟩ := Sweep.machine_of_live hm
    rw [if_pos hl, hmachine, Option.map_some] at hm'
    obtain rfl := Option.some.inj hm'
    have hdel := (List.mem_filter.mp (hk.resolve_left hkept)).2
    rw [firedOf_live hm] at hdel
    exact AlarmStateMachine.get_uai_fired hdel
  · rw [if_neg hl] at hm'
    exact h k (hk.resolve_right fun hfilter => hl (List.mem_of_mem_filter hfilter)) m' hm'

end Second

/-- A second in which no timer expires. -/
theorem sweptSecond_refl {sweep : Sweep} {c : Nat}
    (hnone : ∀ k m, sweep.live k = some m → m.pending ≠ some c) : SweptSecond c sweep sweep := by
  refine ⟨fun k => ?_, fun _ => rfl, fun _ => rfl, ⟨[], by simp, List.nodup_nil, fun k => ?_⟩,
    ⟨[], by simp, fun k => ?_⟩, id⟩
  · cases hm : sweep.live k with
    | none => rfl
    | some m => rw [Option.bind_some, fireAt_of_ne (hnone k m hm)]
  · refine ⟨fun hk => absurd hk List.not_mem_nil, ?_⟩
    rintro ⟨m, hm, hfire⟩
    rw [fireAt_of_ne (hnone k m hm)] at hfire
    cases hfire
  · refine ⟨fun hk => absurd hk List.not_mem_nil, ?_⟩
    rintro ⟨m, hm, ht, -⟩
    exact absurd ht (hnone k m hm)

theorem sweepSecond_spec (order : SetOrder) (c : Nat) {sweep : Sweep}
    (h : Coherent sweep.live sweep.timers) :
    ∃ sweep', sweepSecond order sweep c = some sweep' ∧ Coherent sweep'.live sweep'.timers ∧
      SweptSecond c sweep sweep' := by
  unfold sweepSecond
  cases hentries : sweep.timers.find? c with
  | none =>
    refine ⟨sweep, rfl, h, sweptSecond_refl fun k m hm ht => ?_⟩
    have hmem := (h.mem c k).mpr ⟨m, hm, ht⟩
    rw [TimerTable.at, hentries] at hmem
    simp at hmem
  | some entries =>
    have hat : sweep.timers.at c = entries := by
      rw [TimerTable.at, hentries]
      rfl
    -- the alarms of the second are those that are live and wait for it
    have hlist : ∀ k, k ∈ order.list entries ↔ ∃ m, sweep.live k = some m ∧ m.pending = some c := by
      intro k
      rw [order.mem, ← hat, h.mem]
    have hc : 0 < c := by
      obtain ⟨k, hk⟩ := Finset.nonempty_iff_ne_empty.mpr fun hempty => h.noEmpty c (hempty ▸ hentries)
      obtain ⟨m, hm, ht⟩ := (hlist k).mp ((order.mem entries k).mpr hk)
      rcases Nat.eq_zero_or_pos c with rfl | hpos
      · exact absurd ht (h.sound k m hm).pos
      · exact hpos
    -- each of them fires, and the table has what has become of it
    obtain ⟨tab', hfire, htab, hkeys⟩ := foldlM_fireMachine (c := c) sweep.tab_alarms
      (order.list entries) (order.nodup entries)
      (fun k hk => by
        obtain ⟨m, hm, ht⟩ := (hlist k).mp hk
        exact ⟨m, (Sweep.machine_of_live hm).2, ht⟩) (sweep, []) fun _ _ => rfl
    -- then each is entered for the second it now waits for, which is a later one
    obtain ⟨timers', hupdate, hne, hmem⟩ := foldlM_updateTimer hc tab'
      (f := firedOf sweep.tab_alarms c) (order.list entries) (order.nodup entries)
      (fun k hk => by
        obtain ⟨m, hm, -⟩ := (hlist k).mp hk
        rw [htab, if_pos hk, (Sweep.machine_of_live hm).2]
        rfl)
      (fun k hk => by
        obtain ⟨m, hm, ht⟩ := (hlist k).mp hk
        rw [firedOf_live hm]
        exact (AlarmStateMachine.fired_spec ht).1)
      (fun k hk t hv => by
        obtain ⟨m, hm, ht⟩ := (hlist k).mp hk
        rw [firedOf_live hm] at hv
        rcases (AlarmStateMachine.fired_spec ht).2.1 _ hv with hneg | ⟨t', heq, hlt⟩ <;> omega)
      sweep.timers h.noEmpty (fun k hk t => by
        obtain ⟨m, hm, ht⟩ := (hlist k).mp hk
        rw [h.mem]
        constructor
        · rintro ⟨m', hm', ht'⟩
          obtain rfl := Option.some.inj (hm.symm.trans hm')
          exact Option.some.inj (ht'.symm.trans ht)
        · rintro rfl
          exact ⟨m, hm, ht⟩)
    -- so who is live and who is in the timers go together again
    have hlive := live_fired hlist ⟨tab', timers', _, sweep.update_alarms ++
      (order.list entries).filter fun k => (firedOf sweep.tab_alarms c k).update_alarm⟩ htab rfl
    refine ⟨_, by simp [hfire, hupdate], ?_, hlive, fun k => ?_, hkeys,
      ⟨_, rfl, (order.nodup entries).filter _, mem_deleted hlist⟩, ⟨_, rfl, mem_updated hlist⟩,
      hidden_fired hlist htab rfl⟩
    · rw [show Sweep.live _ = _ from funext hlive]
      refine h.fireAt hne fun t k => ?_
      rw [hmem, h.mem]
      constructor
      · rintro (⟨hnot, m, hm, ht⟩ | ⟨hk, hv⟩)
        · exact Or.inl ⟨m, hm, mt (pending_of_mem hlist hm).mpr hnot, ht⟩
        · obtain ⟨m, hm, ht⟩ := (hlist k).mp hk
          rw [firedOf_live hm] at hv
          exact Or.inr ⟨m, hm, ht, hv⟩
      · rintro (⟨m, hm, hnot, ht⟩ | ⟨m, hm, ht, hv⟩)
        · exact Or.inl ⟨mt (pending_of_mem hlist hm).mp hnot, m, hm, ht⟩
        · exact Or.inr ⟨(hlist k).mpr ⟨m, hm, ht⟩, by rw [firedOf_live hm, hv]⟩
    · simp only [htab]
      split
      · exact Option.isSome_map
      · rfl

-- ---------------------------------------------------------------------------
-- A whole sweep
-- ---------------------------------------------------------------------------

namespace AlarmStateMachine

/-- The machine after some seconds; `none` when it is to be deleted. -/
def sweep (cs : List Nat) (m : AlarmStateMachine) : Option AlarmStateMachine :=
  cs.foldlM (fun m c => m.fireAt c) m

/-- Does the sweep ask for an update for this machine? -/
def sweepUpdates : List Nat → AlarmStateMachine → Bool
  | [], _ => false
  | c :: cs, m =>
    (m.pending = some c && (m.fired c).2.update_alarm) || (m.fireAt c).elim false (sweepUpdates cs)

end AlarmStateMachine

/-- A sweep, machine by machine. -/
structure Swept (cs : List Nat) (sweep sweep' : Sweep) : Prop where
  live : ∀ k, sweep'.live k = (sweep.live k).bind (AlarmStateMachine.sweep cs)
  exists_iff : ∀ k, (sweep'.tab_alarms.machine k).isSome = (sweep.tab_alarms.machine k).isSome
  keys : ∀ uv, (sweep'.tab_alarms.find? uv).isSome = (sweep.tab_alarms.find? uv).isSome
  deleted : ∃ ds, sweep'.delete_alarms = sweep.delete_alarms ++ ds ∧ ds.Nodup ∧
    ∀ k, k ∈ ds ↔ ∃ m, sweep.live k = some m ∧ m.sweep cs = none
  updated : ∃ us, sweep'.update_alarms = sweep.update_alarms ++ us ∧
    ∀ k, k ∈ us ↔ ∃ m, sweep.live k = some m ∧ m.sweepUpdates cs = true
  hidden : sweep.Hidden → sweep'.Hidden

theorem SweptSecond.swept {c : Nat} {cs : List Nat} {s₀ s₁ s₂ : Sweep} (h : SweptSecond c s₀ s₁)
    (h' : Swept cs s₁ s₂) : Swept (c :: cs) s₀ s₂ := by
  refine ⟨fun k => ?_, fun k => (h'.exists_iff k).trans (h.exists_iff k),
    fun uv => (h'.keys uv).trans (h.keys uv), ?_, ?_, h'.hidden ∘ h.hidden⟩
  · rw [h'.live, h.live, Option.bind_assoc]
    rfl
  · obtain ⟨ds, hds, hnodup, hmem⟩ := h.deleted
    obtain ⟨ds', hds', hnodup', hmem'⟩ := h'.deleted
    refine ⟨ds ++ ds', by rw [hds', hds, List.append_assoc], ?_, fun k => ?_⟩
    · refine hnodup.append hnodup' ?_
      intro k hk hk'
      obtain ⟨m, hm, hfire⟩ := (hmem k).mp hk
      obtain ⟨m', hm', -⟩ := (hmem' k).mp hk'
      rw [h.live, hm, Option.bind_some, hfire] at hm'
      cases hm'
    · rw [List.mem_append, hmem, hmem', h.live]
      cases hm : s₀.live k with
      | none => simp
      | some m =>
        simp only [Option.some.injEq, exists_eq_left', Option.bind_some, AlarmStateMachine.sweep,
          List.foldlM_cons, Option.bind_eq_bind]
        cases m.fireAt c <;> simp
  · obtain ⟨us, hus, hmem⟩ := h.updated
    obtain ⟨us', hus', hmem'⟩ := h'.updated
    refine ⟨us ++ us', by rw [hus', hus, List.append_assoc], fun k => ?_⟩
    rw [List.mem_append, hmem, hmem', h.live]
    cases hm : s₀.live k with
    | none => simp
    | some m =>
      simp only [Option.some.injEq, exists_eq_left', Option.bind_some,
        AlarmStateMachine.sweepUpdates, Bool.or_eq_true, Bool.and_eq_true, decide_eq_true_eq]
      cases m.fireAt c <;> simp

/-- What a sweep does to each machine, and that it does not fail. -/
theorem sweepTimers_spec (order : SetOrder) (cs : List Nat) {s : Sweep}
    (h : Coherent s.live s.timers) :
    ∃ s', cs.foldlM (sweepSecond order) s = some s' ∧ Coherent s'.live s'.timers ∧
      Swept cs s s' := by
  induction cs generalizing s with
  | nil =>
    refine ⟨s, rfl, h, fun k => ?_, fun _ => rfl, fun _ => rfl,
      ⟨[], by simp, List.nodup_nil, fun k => ?_⟩, ⟨[], by simp, fun k => ?_⟩, id⟩
    · cases s.live k <;> rfl
    · simp [AlarmStateMachine.sweep]
    · simp [AlarmStateMachine.sweepUpdates]
  | cons c cs ih =>
    obtain ⟨s₁, hs₁, h₁, hfirst⟩ := sweepSecond_spec order c h
    obtain ⟨s₂, hs₂, h₂, hrest⟩ := ih h₁
    refine ⟨s₂, ?_, h₂, hfirst.swept hrest⟩
    rw [List.foldlM_cons, hs₁, Option.bind_eq_bind, Option.bind_some, hs₂]

/-- The seconds that a sweep at `time` goes through. -/
def sweptSeconds (last_timers_run : Option Nat) (time : Nat) : List Nat :=
  List.range' (last_timers_run.getD time) (time + 1 - last_timers_run.getD time)

/-- What `run_timers` returns, machine by machine. -/
structure TimersRun (tab_alarms : TabAlarms) (cs : List Nat) (sweep : Sweep) : Prop where
  live : ∀ k, sweep.live k = (tab_alarms.machine k).bind (AlarmStateMachine.sweep cs)
  exists_iff : ∀ k, (sweep.tab_alarms.machine k).isSome = (tab_alarms.machine k).isSome
  keys : ∀ uv, (sweep.tab_alarms.find? uv).isSome = (tab_alarms.find? uv).isSome
  nodup : sweep.delete_alarms.Nodup
  deleted : ∀ k, k ∈ sweep.delete_alarms ↔
    ∃ m, tab_alarms.machine k = some m ∧ m.sweep cs = none
  updated : ∀ k, k ∈ sweep.update_alarms ↔
    ∃ m, tab_alarms.machine k = some m ∧ m.sweepUpdates cs = true
  hidden : sweep.Hidden

theorem run_timers_spec {tab_alarms : TabAlarms} {timers : TimerTable}
    (h : Coherent tab_alarms.machine timers) (order : SetOrder) (time : Nat)
    (last_timers_run : Option Nat) :
    ∃ sweep, run_timers order time last_timers_run tab_alarms timers = some (sweep, time + 1) ∧
      Coherent sweep.live sweep.timers ∧
      TimersRun tab_alarms (sweptSeconds last_timers_run time) sweep := by
  have hlive : (Sweep.mk tab_alarms timers [] []).live = tab_alarms.machine := by
    funext k
    simp [Sweep.live]
  obtain ⟨sweep, hsweep, hcoherent, hswept⟩ := sweepTimers_spec order
    (sweptSeconds last_timers_run time) (s := ⟨tab_alarms, timers, [], []⟩) (by rw [hlive]; exact h)
  have hrun : run_timers order time last_timers_run tab_alarms timers = some (sweep, time + 1) := by
    unfold run_timers sweepTimers
    rw [sweptSeconds] at hsweep
    rw [hsweep]
    rfl
  obtain ⟨ds, hds, hnodup, hdeleted⟩ := hswept.deleted
  obtain ⟨us, hus, hupdated⟩ := hswept.updated
  rw [List.nil_append] at hds hus
  refine ⟨sweep, hrun, hcoherent, fun k => ?_, hswept.exists_iff, hswept.keys, ?_, fun k => ?_,
    fun k => ?_,
    hswept.hidden fun k hk => absurd hk List.not_mem_nil⟩
  · rw [hswept.live, hlive]
  · rw [hds]
    exact hnodup
  · rw [hds, hdeleted, hlive]
  · rw [hus, hupdated, hlive]

/-- After a second no timer is left in it, and those that are set are later. -/
theorem pending_fireAt {c t : Nat} {m m' : AlarmStateMachine} (h : m.fireAt c = some m')
    (ht : m'.pending = some t) : m.pending = some t ∧ t ≠ c ∨ m.pending = some c ∧ c < t := by
  unfold AlarmStateMachine.fireAt at h
  split at h
  · rename_i hc
    split at h
    · cases h
    · rename_i hdel
      obtain rfl := Option.some.inj h
      obtain ⟨-, hlater, -, hleft⟩ := AlarmStateMachine.fired_spec hc
      rcases hlater _ (((hleft (by simpa using hdel)).2 t).mp ht) with hneg | ⟨t', heq, hlt⟩
      · omega
      · exact Or.inr ⟨hc, by omega⟩
  · rename_i hc
    obtain rfl := Option.some.inj h
    refine Or.inl ⟨ht, ?_⟩
    rintro rfl
    exact hc ht

/-- A sweep leaves no timer behind when none was behind before. -/
theorem pending_sweep {start n t : Nat} {m m' : AlarmStateMachine}
    (h : m.sweep (List.range' start n) = some m')
    (hahead : ∀ t, m.pending = some t → start ≤ t) (ht : m'.pending = some t) :
    start + n ≤ t := by
  induction n generalizing start m with
  | zero =>
    obtain rfl := Option.some.inj h
    exact hahead t ht
  | succ n ih =>
    rw [List.range'_succ, AlarmStateMachine.sweep, List.foldlM_cons] at h
    obtain ⟨m₁, hm₁, hrest⟩ := Option.bind_eq_some_iff.mp h
    have := ih hrest fun t₁ ht₁ => by
      rcases pending_fireAt hm₁ ht₁ with ⟨hold, hne⟩ | ⟨-, hlt⟩
      · have := hahead t₁ hold
        omega
      · exact hlt
    omega

-- ---------------------------------------------------------------------------
-- Which machines a sweep deletes and updates
-- ---------------------------------------------------------------------------

namespace AlarmStateMachine

/-- The machine should be gone: its delete timeout is over, also when that timeout
only starts at the end of the idle timeout. -/
def Expired (m : AlarmStateMachine) (now : Nat) : Prop :=
  m.uas.state = .Idle ∧ (∃ t, m.deleteTimeout = some t ∧ t ≤ now) ∨
    m.uas.state = .Soak_Idle ∧ ∃ t, m.idleTimeout = some t ∧ t + m.uac.FreqCheck_Seconds ≤ now

/-- The idle timeout is over, and so is the delete timeout that starts with it. -/
def ExpiresTwice (m : AlarmStateMachine) (now : Nat) : Prop :=
  m.uas.state = .Soak_Idle ∧ m.uac.FreqCheck_Seconds ≠ 0 ∧
    ∃ t, m.idleTimeout = some t ∧ t + m.uac.FreqCheck_Seconds ≤ now

/-- When a machine with a pending timer should be gone. -/
def expiry (m : AlarmStateMachine) (t : Nat) : Option Nat :=
  match m.uas.state with
  | .Idle => some t
  | .Soak_Idle => some (t + m.uac.FreqCheck_Seconds)
  | _ => none

theorem expired_iff (m : AlarmStateMachine) (now : Nat) :
    m.Expired now ↔ ∃ t e, m.pending = some t ∧ m.expiry t = some e ∧ e ≤ now := by
  unfold Expired pending expiry
  cases m.uas.state <;> simp

/-- The timer of a machine that is left after it expired. -/
theorem expiry_fireAt {m m' : AlarmStateMachine} {c : Nat} (hpending : m.pending = some c)
    (h : m.fireAt c = some m') (t' e : Nat) :
    m'.pending = some t' ∧ m'.expiry t' = some e ↔
      m.expiry c = some e ∧ m.uac.FreqCheck_Seconds ≠ 0 ∧ t' = e ∧ m.uas.state = .Soak_Idle := by
  unfold fireAt at h
  rw [if_pos hpending] at h
  unfold fired at h
  unfold pending at hpending
  cases hstate : m.uas.state with
  | Active => simp [hstate] at hpending
  | Idle => simp [hstate] at h
  | Soak_Active =>
    simp only [hstate, Bool.false_eq_true, if_false, Option.some.injEq] at h
    subst h
    simp [pending, expiry, setState]
  | Soak_Idle =>
    by_cases hfreq : m.uac.FreqCheck_Seconds = 0
    · simp [hstate, hfreq] at h
    · simp only [hstate, ne_eq, hfreq, not_false_eq_true, if_true, Bool.false_eq_true, if_false,
        Option.some.injEq] at h
      subst h
      simp only [pending, expiry, setState, hstate, Option.some.injEq]
      constructor
      · rintro ⟨rfl, rfl⟩
        simp [hfreq]
      · rintro ⟨rfl, -, rfl, -⟩
        simp

theorem fireAt_eq_none_iff {m : AlarmStateMachine} {c : Nat} (hpending : m.pending = some c) :
    m.fireAt c = none ↔ m.expiry c = some c := by
  unfold fireAt fired expiry
  rw [if_pos hpending]
  unfold pending at hpending
  cases hstate : m.uas.state with
  | Active => simp [hstate] at hpending
  | Idle => simp
  | Soak_Active => simp
  | Soak_Idle => by_cases hfreq : m.uac.FreqCheck_Seconds = 0 <;> simp [hfreq]

/-- The machines that a sweep deletes. -/
theorem sweep_range_eq_none_iff (m : AlarmStateMachine) (start n : Nat) :
    m.sweep (List.range' start n) = none ↔
      ∃ t e, m.pending = some t ∧ start ≤ t ∧ m.expiry t = some e ∧ e < start + n := by
  induction n generalizing start m with
  | zero =>
    have hlater : ∀ t e, m.expiry t = some e → t ≤ e := by
      intro t e he
      unfold expiry at he
      split at he <;> simp only [Option.some.injEq, reduceCtorEq] at he <;> omega
    refine ⟨nofun, ?_⟩
    rintro ⟨t, e, -, hstart, he, hlt⟩
    have := hlater t e he
    omega
  | succ n ih =>
    rw [List.range'_succ, sweep, List.foldlM_cons, Option.bind_eq_bind]
    by_cases hpending : m.pending = some start
    · simp only [hpending, Option.some.injEq]
      cases hfire : m.fireAt start with
      | none =>
        refine ⟨fun _ => ?_, fun _ => rfl⟩
        exact ⟨start, start, rfl, le_rfl, (fireAt_eq_none_iff hpending).mp hfire, by omega⟩
      | some m' =>
        have hspec := expiry_fireAt hpending hfire
        rw [Option.bind_some]
        refine (ih m' (start + 1)).trans ⟨?_, ?_⟩
        · rintro ⟨t', e, ht', -, he, hlt⟩
          exact ⟨start, e, rfl, le_rfl, ((hspec t' e).mp ⟨ht', he⟩).1, by omega⟩
        · rintro ⟨t, e, rfl, -, he, hlt⟩
          have hne : m.expiry start ≠ some start := fun heq => by
            rw [(fireAt_eq_none_iff hpending).mpr heq] at hfire
            cases hfire
          have hsoak : m.uas.state = .Soak_Idle := by
            cases hstate : m.uas.state <;> simp_all [expiry]
          have hexp : m.expiry start = some (start + m.uac.FreqCheck_Seconds) := by
            simp [expiry, hsoak]
          have hfreq : m.uac.FreqCheck_Seconds ≠ 0 := fun hz => hne (by rw [hexp, hz]; rfl)
          obtain ⟨ht', he'⟩ := (hspec e e).mpr ⟨he, hfreq, rfl, hsoak⟩
          rw [hexp] at he
          have := Option.some.inj he
          exact ⟨e, e, ht', by omega, he', by omega⟩
    · rw [fireAt_of_ne hpending, Option.bind_some]
      refine (ih m (start + 1)).trans ⟨?_, ?_⟩
      · rintro ⟨t, e, ht, hle, he, hlt⟩
        exact ⟨t, e, ht, by omega, he, by omega⟩
      · rintro ⟨t, e, ht, hle, he, hlt⟩
        have hne : t ≠ start := fun heq => hpending (heq ▸ ht)
        exact ⟨t, e, ht, by omega, he, by omega⟩

theorem update_fired {m : AlarmStateMachine} {c : Nat} (hpending : m.pending = some c) :
    (m.fired c).2.update_alarm = true ↔
      m.uas.state = .Soak_Active ∨ m.uas.state = .Soak_Idle ∧ m.uac.FreqCheck_Seconds ≠ 0 := by
  unfold fired
  unfold pending at hpending
  cases hstate : m.uas.state with
  | Active => simp [hstate] at hpending
  | Idle => simp
  | Soak_Active => simp
  | Soak_Idle => by_cases hfreq : m.uac.FreqCheck_Seconds = 0 <;> simp [hfreq]

/-- A timer that asks for no update deletes its machine. -/
theorem fireAt_of_quiet {m : AlarmStateMachine} {c : Nat} (hpending : m.pending = some c)
    (hquiet : (m.fired c).2.update_alarm ≠ true) : m.fireAt c = none := by
  rw [Ne, update_fired hpending, not_or, not_and, not_not] at hquiet
  rw [fireAt_eq_none_iff hpending]
  unfold expiry
  unfold pending at hpending
  cases hstate : m.uas.state with
  | Active => simp [hstate] at hpending
  | Idle => rfl
  | Soak_Active => exact absurd hstate hquiet.1
  | Soak_Idle => simp [hquiet.2 hstate]

/-- A machine that a sweep neither deletes nor updates is as it was. -/
theorem sweep_unchanged {cs : List Nat} {m m' : AlarmStateMachine} (h : m.sweep cs = some m')
    (hupdates : m.sweepUpdates cs = false) : m' = m := by
  induction cs generalizing m with
  | nil => exact (Option.some.inj h).symm
  | cons c cs ih =>
    rw [sweep, List.foldlM_cons] at h
    obtain ⟨m₁, hm₁, hrest⟩ := Option.bind_eq_some_iff.mp h
    simp only [sweepUpdates, hm₁, Option.elim_some, Bool.or_eq_false_iff, Bool.and_eq_false_iff,
      decide_eq_false_iff_not] at hupdates
    have hpending : m.pending ≠ some c := by
      intro hpending
      have hquiet : (m.fired c).2.update_alarm ≠ true := by
        simpa using hupdates.1.resolve_left (not_not_intro hpending)
      rw [fireAt_of_quiet hpending hquiet] at hm₁
      cases hm₁
    rw [fireAt_of_ne hpending] at hm₁
    obtain rfl := Option.some.inj hm₁
    exact ih hrest hupdates.2

/-- The machines that a sweep asks an update for. -/
theorem sweepUpdates_range_iff (m : AlarmStateMachine) (start n : Nat) :
    m.sweepUpdates (List.range' start n) = true ↔
      ∃ t, m.pending = some t ∧ start ≤ t ∧ t < start + n ∧
        (m.uas.state = .Soak_Active ∨ m.uas.state = .Soak_Idle ∧ m.uac.FreqCheck_Seconds ≠ 0) := by
  induction n generalizing start with
  | zero =>
    refine ⟨nofun, ?_⟩
    rintro ⟨t, -, hle, hlt, -⟩
    omega
  | succ n ih =>
    rw [List.range'_succ, sweepUpdates, Bool.or_eq_true, Bool.and_eq_true, decide_eq_true_eq]
    by_cases hpending : m.pending = some start
    · by_cases hupdate : (m.fired start).2.update_alarm = true
      · refine ⟨fun _ => ?_, fun _ => Or.inl ⟨hpending, hupdate⟩⟩
        exact ⟨start, hpending, le_rfl, by omega, (update_fired hpending).mp hupdate⟩
      · rw [fireAt_of_quiet hpending hupdate]
        constructor
        · rintro (⟨-, hup⟩ | hfalse)
          · exact absurd hup hupdate
          · cases hfalse
        · rintro ⟨t, ht, -, -, hkind⟩
          exact absurd ((update_fired hpending).mpr hkind) hupdate
    · rw [fireAt_of_ne hpending, Option.elim_some, ih (start + 1)]
      constructor
      · rintro (⟨hup, -⟩ | ⟨t, ht, hle, hlt, hkind⟩)
        · exact absurd hup hpending
        · exact ⟨t, ht, by omega, by omega, hkind⟩
      · rintro ⟨t, ht, hle, hlt, hkind⟩
        have hne : t ≠ start := fun heq => hpending (heq ▸ ht)
        exact Or.inr ⟨t, ht, by omega, by omega, hkind⟩

theorem uai_sweep {cs : List Nat} {m m' : AlarmStateMachine} (h : m.sweep cs = some m') :
    m'.uai = m.uai := by
  induction cs generalizing m with
  | nil => exact congrArg uai (Option.some.inj h).symm
  | cons c cs ih =>
    rw [sweep, List.foldlM_cons] at h
    obtain ⟨m₁, hm₁, hrest⟩ := Option.bind_eq_some_iff.mp h
    rw [ih hrest]
    unfold fireAt at hm₁
    split at hm₁
    · split at hm₁
      · cases hm₁
      · obtain rfl := Option.some.inj hm₁
        exact uai_fired m c
    · obtain rfl := Option.some.inj hm₁
      rfl

end AlarmStateMachine

-- ---------------------------------------------------------------------------
-- Runs
-- ---------------------------------------------------------------------------

structure AlarmState where
  tab_alarms : TabAlarms
  tab_alarms_timer : TimerTable
  last_timers_run : Option Nat
  /-- the time of the last call -/
  time : Nat
  /-- an exception was raised -/
  raised : Bool

/-- The calls on machines, with the time at which they are made. -/
inductive AlarmCall where
  | create (k : AlarmId) (uac : UVEAlarmConfig)
  | set_alarms (k : AlarmId) (uai : UVEAlarmInfo) (time : Nat)
  | clear_alarms (k : AlarmId) (time : Nat)
  | delete_timers (k : AlarmId)
  | run_timers (order : SetOrder) (time : Nat)

/-- A machine that is to be deleted is deleted by the caller. -/
def callMachine (s : AlarmState) (k : AlarmId) (m : AlarmStateMachine) : AlarmCall → Option AlarmState
  | .set_alarms _ uai time => do
    let (m, timers) ← (m.set_uai uai).set_alarms s.tab_alarms_timer k time
    some { s with tab_alarms := s.tab_alarms.put k m, tab_alarms_timer := timers }
  | .clear_alarms _ time => do
    let (m, timers, delete_alarm) ← m.clear_alarms s.tab_alarms_timer k time
    let tab_alarms ← s.tab_alarms.clear k m delete_alarm
    some { s with tab_alarms, tab_alarms_timer := timers }
  | .delete_timers _ => do
    let timers ← m.delete_timers s.tab_alarms_timer k
    let tab_alarms ← s.tab_alarms.del k
    some { s with tab_alarms, tab_alarms_timer := timers }
  | _ => some s

/-- A sweep, after which the machines to be deleted are deleted. -/
def callTimers (s : AlarmState) (order : SetOrder) (time : Nat) : Option AlarmState := do
  let (sweep, last_timers_run) ←
    run_timers order time s.last_timers_run s.tab_alarms s.tab_alarms_timer
  let tab_alarms ← sweep.delete_alarms.foldlM TabAlarms.del sweep.tab_alarms
  some { s with tab_alarms, tab_alarms_timer := sweep.timers, last_timers_run := some last_timers_run }

/-- The state after a call that may have raised an exception. -/
def AlarmState.after (s : AlarmState) (time : Nat) (result : Option AlarmState) : AlarmState :=
  match result with
  | none => { s with raised := true, time }
  | some s' => { s' with time }

/-- Machines are created once, called while they exist, and time does not go back. -/
def alarmStep (s : AlarmState) (call : AlarmCall) : Option AlarmState :=
  if s.raised then none
  else
    match call with
    | .create k uac =>
      match s.tab_alarms.machine k with
      | none => some { s with tab_alarms := s.tab_alarms.put k (.init uac) }
      | some _ => none
    | .set_alarms k _ time | .clear_alarms k time =>
      if time < s.time then none
      else (s.tab_alarms.machine k).map fun m => s.after time (callMachine s k m call)
    | .delete_timers k =>
      (s.tab_alarms.machine k).map fun m => s.after s.time (callMachine s k m call)
    | .run_timers order time =>
      if time < s.time then none else some (s.after time (callTimers s order time))

def alarmSystem : System AlarmState AlarmCall where
  init := ⟨.empty, .empty, none, 0, false⟩
  step := alarmStep

/-- The timer table and the machines agree. -/
structure TimersAgree (s : AlarmState) : Prop where
  mem_iff : ∀ t k, k ∈ s.tab_alarms_timer.at t ↔ ∃ m, s.tab_alarms.machine k = some m ∧
    (m.uas.state = .Soak_Active ∧ m.activeTimeout = some t ∨
      m.uas.state = .Soak_Idle ∧ m.idleTimeout = some t ∨
      m.uas.state = .Idle ∧ m.deleteTimeout = some t)
  active : ∀ k m, s.tab_alarms.machine k = some m → m.uas.state = .Active →
    ∀ t, k ∉ s.tab_alarms_timer.at t
  machine : ∀ t k, k ∈ s.tab_alarms_timer.at t → s.tab_alarms.machine k ≠ none
  noEmpty : s.tab_alarms_timer.NoEmpty
  ahead : ∀ t k last, k ∈ s.tab_alarms_timer.at t → s.last_timers_run = some last → last ≤ t
  noError : s.raised = false

/-- The first sweep is not later than a timer that has been set. -/
def FirstSweepInTime (s : AlarmState) : AlarmCall → Prop
  | .run_timers _ time => s.last_timers_run = none → ∀ t k, k ∈ s.tab_alarms_timer.at t → time ≤ t
  | _ => True

/-- The invariant of all runs. -/
structure AlarmInv (s : AlarmState) : Prop where
  coherent : Coherent s.tab_alarms.machine s.tab_alarms_timer
  last : ∀ last, s.last_timers_run = some last → last ≤ s.time + 1
  noError : s.raised = false

/-- Every timer is still to come. -/
def TimersAhead (s : AlarmState) : Prop :=
  ∀ t k last, k ∈ s.tab_alarms_timer.at t → s.last_timers_run = some last → last ≤ t

theorem pending_iff (m : AlarmStateMachine) (t : Nat) : m.pending = some t ↔
    m.uas.state = .Soak_Active ∧ m.activeTimeout = some t ∨
      m.uas.state = .Soak_Idle ∧ m.idleTimeout = some t ∨
      m.uas.state = .Idle ∧ m.deleteTimeout = some t := by
  unfold AlarmStateMachine.pending
  cases m.uas.state <;> simp

theorem AlarmInv.timersAgree {s : AlarmState} (h : AlarmInv s) (hahead : TimersAhead s) :
    TimersAgree s := by
  refine ⟨fun t k => ?_, fun k m hm hstate t hmem => ?_, fun t k hmem => ?_, h.coherent.noEmpty,
    hahead, h.noError⟩
  · rw [h.coherent.mem]
    simp only [pending_iff]
  · obtain ⟨m', hm', ht⟩ := (h.coherent.mem t k).mp hmem
    obtain rfl := Option.some.inj (hm.symm.trans hm')
    rw [AlarmStateMachine.pending, hstate] at ht
    cases ht
  · obtain ⟨m, hm, -⟩ := (h.coherent.mem t k).mp hmem
    rw [hm]
    exact Option.some_ne_none m

theorem callTimers_spec {s : AlarmState} (h : Coherent s.tab_alarms.machine s.tab_alarms_timer)
    (order : SetOrder) (time : Nat) :
    ∃ s', callTimers s order time = some s' ∧
      Coherent s'.tab_alarms.machine s'.tab_alarms_timer ∧
      (∀ k, s'.tab_alarms.machine k = (s.tab_alarms.machine k).bind
        (AlarmStateMachine.sweep (sweptSeconds s.last_timers_run time))) ∧
      s'.last_timers_run = some (time + 1) ∧ s'.raised = s.raised := by
  obtain ⟨sweep, hrun, hcoherent, hspec⟩ := run_timers_spec h order time s.last_timers_run
  obtain ⟨tab', hdel, htab, -, -⟩ := foldlM_del sweep.delete_alarms hspec.nodup
    sweep.tab_alarms fun k hk => by
      obtain ⟨m, hm, -⟩ := (hspec.deleted k).mp hk
      rw [hspec.exists_iff, hm]
      rfl
  have hmachine : tab'.machine = sweep.live := by
    funext k
    rw [htab, Sweep.live]
  refine ⟨{ s with
    tab_alarms := tab', tab_alarms_timer := sweep.timers, last_timers_run := some (time + 1) },
    ?_, ?_, fun k => ?_, rfl, rfl⟩
  · simp [callTimers, hrun, hdel]
  · rw [hmachine]
    exact hcoherent
  · rw [hmachine, hspec.live]

/-- Every call succeeds and keeps the invariant; new timers are later than the call. -/
theorem callMachine_spec {s : AlarmState} (h : Coherent s.tab_alarms.machine s.tab_alarms_timer)
    {k : AlarmId} {m : AlarmStateMachine} (hm : s.tab_alarms.machine k = some m)
    (call : AlarmCall) {time : Nat}
    (hcall : (∃ uai, call = .set_alarms k uai time) ∨ call = .clear_alarms k time ∨
      call = .delete_timers k) :
    ∃ s', callMachine s k m call = some s' ∧
      Coherent s'.tab_alarms.machine s'.tab_alarms_timer ∧
      LaterThan time s.tab_alarms_timer s'.tab_alarms_timer ∧
      s'.last_timers_run = s.last_timers_run ∧ s'.raised = s.raised := by
  rcases hcall with ⟨uai, rfl⟩ | rfl | rfl
  · obtain ⟨m', timers', hset, hcoherent, hlater, -⟩ := set_uai_spec h hm uai time
    refine ⟨{ s with tab_alarms := s.tab_alarms.put k m', tab_alarms_timer := timers' },
      by simp [callMachine, hset], ?_, hlater, rfl, rfl⟩
    rw [machine_put_eq]
    exact hcoherent
  · obtain ⟨m', timers', del, hclear, hcoherent, hlater, -⟩ := clear_alarms_spec h hm time
    obtain ⟨tab', htab, hmachine⟩ := exists_clear s.tab_alarms k m' del
    refine ⟨{ s with tab_alarms := tab', tab_alarms_timer := timers' },
      by simp [callMachine, hclear, htab], ?_, hlater, rfl, rfl⟩
    rw [hmachine]
    exact hcoherent
  · obtain ⟨timers', hdelete, hcoherent, hlater⟩ := delete_timers_spec h hm
    obtain ⟨tab', hdel, htab⟩ := exists_del hm
    refine ⟨{ s with tab_alarms := tab', tab_alarms_timer := timers' },
      by simp [callMachine, hdelete, hdel], ?_, hlater time, rfl, rfl⟩
    rw [htab]
    exact hcoherent

theorem alarmInv_init : AlarmInv alarmSystem.init := by
  refine ⟨⟨fun t => ?_, fun t k => ?_, fun k m hm => ?_⟩, nofun, rfl⟩
  · exact nofun
  · constructor
    · intro hmem
      exact absurd hmem (Finset.notMem_empty k)
    · rintro ⟨m, hm, -⟩
      cases hm
  · cases hm

/-- A call on one machine. -/
theorem alarmInv_callMachine {s : AlarmState} (h : AlarmInv s) {k : AlarmId}
    {m : AlarmStateMachine} (hm : s.tab_alarms.machine k = some m) (call : AlarmCall) {time : Nat}
    (htime : s.time ≤ time)
    (hcall : (∃ uai, call = .set_alarms k uai time) ∨ call = .clear_alarms k time ∨
      call = .delete_timers k) :
    AlarmInv (s.after time (callMachine s k m call)) ∧
      (TimersAhead s → TimersAhead (s.after time (callMachine s k m call))) := by
  obtain ⟨s', hs', hcoherent, hlater, hlast, hraised⟩ := callMachine_spec h.coherent hm call hcall
  rw [hs']
  refine ⟨⟨hcoherent, fun last hsome => ?_, hraised.trans h.noError⟩,
    fun hahead t k' last hmem hsome => ?_⟩
  · exact (h.last last (hlast ▸ hsome)).trans (Nat.succ_le_succ htime)
  · have hle := h.last last (hlast ▸ hsome)
    rcases hlater t k' hmem with hold | hlt
    · exact hahead t k' last hold (hlast ▸ hsome)
    · omega

theorem alarmInv_callTimers {s : AlarmState} (h : AlarmInv s) (order : SetOrder) (time : Nat) :
    AlarmInv (s.after time (callTimers s order time)) ∧
      (FirstSweepInTime s (.run_timers order time) → TimersAhead s →
        TimersAhead (s.after time (callTimers s order time))) := by
  obtain ⟨s', hs', hcoherent, hmachine, hlast, hraised⟩ := callTimers_spec h.coherent order time
  rw [hs']
  refine ⟨⟨hcoherent, fun last hsome => ?_, hraised.trans h.noError⟩,
    fun hfirst hahead t k last hmem hsome => ?_⟩
  · have heq : time + 1 = last := Option.some.inj (hlast.symm.trans hsome)
    exact heq ▸ le_rfl
  · obtain rfl : time + 1 = last := Option.some.inj (hlast.symm.trans hsome)
    obtain ⟨m', hm', ht⟩ := (hcoherent.mem t k).mp hmem
    rw [hmachine] at hm'
    obtain ⟨m, hm, hsweep⟩ := Option.bind_eq_some_iff.mp hm'
    have hstart : ∀ t, m.pending = some t → s.last_timers_run.getD time ≤ t := by
      intro t ht
      have hold := (h.coherent.mem t k).mpr ⟨m, hm, ht⟩
      cases hrun : s.last_timers_run with
      | none => exact hfirst hrun t k hold
      | some last => exact hahead t k last hold hrun
    have hle := pending_sweep hsweep hstart ht
    omega

/-- One call. -/
theorem coherent_step {s s' : AlarmState} {call : AlarmCall} (h : AlarmInv s)
    (hstep : alarmStep s call = some s') :
    AlarmInv s' ∧ (FirstSweepInTime s call → TimersAhead s → TimersAhead s') := by
  unfold alarmStep at hstep
  rw [if_neg (by simp [h.noError])] at hstep
  cases call with
  | create k uac =>
    simp only at hstep
    split at hstep
    · rename_i hnone
      obtain rfl := Option.some.inj hstep
      refine ⟨⟨?_, h.last, h.noError⟩, fun _ hahead => hahead⟩
      rw [machine_put_eq]
      exact h.coherent.create hnone uac
    · cases hstep
  | set_alarms k uai time =>
    simp only at hstep
    split at hstep
    · cases hstep
    · rename_i htime
      obtain ⟨m, hm, rfl⟩ := Option.map_eq_some_iff.mp hstep
      obtain ⟨hinv, hahead⟩ := alarmInv_callMachine h hm (.set_alarms k uai time) (not_lt.mp htime)
        (Or.inl ⟨uai, rfl⟩)
      exact ⟨hinv, fun _ => hahead⟩
  | clear_alarms k time =>
    simp only at hstep
    split at hstep
    · cases hstep
    · rename_i htime
      obtain ⟨m, hm, rfl⟩ := Option.map_eq_some_iff.mp hstep
      obtain ⟨hinv, hahead⟩ := alarmInv_callMachine h hm (.clear_alarms k time) (not_lt.mp htime)
        (Or.inr (Or.inl rfl))
      exact ⟨hinv, fun _ => hahead⟩
  | delete_timers k =>
    obtain ⟨m, hm, rfl⟩ := Option.map_eq_some_iff.mp hstep
    obtain ⟨hinv, hahead⟩ := alarmInv_callMachine h hm (.delete_timers k) le_rfl
      (Or.inr (Or.inr rfl))
    exact ⟨hinv, fun _ => hahead⟩
  | run_timers order time =>
    simp only at hstep
    split at hstep
    · cases hstep
    · obtain rfl := Option.some.inj hstep
      exact alarmInv_callTimers h order time

theorem alarm_invariant {s : AlarmState} (h : alarmSystem.Reachable s) : AlarmInv s :=
  h.invariant alarmInv_init fun _ _ _ hinv hstep => (coherent_step hinv hstep).1

/-- The timer table and the machines agree in every run whose first sweep is not
later than a timer that has been set. -/
theorem timers_coherent {s : AlarmState} (h : alarmSystem.ReachableVia FirstSweepInTime s) :
    TimersAgree s := by
  have hboth : AlarmInv s ∧ TimersAhead s := by
    refine h.invariant (P := fun s => AlarmInv s ∧ TimersAhead s) ⟨alarmInv_init, ?_⟩ ?_
    · exact fun t k last hmem hlast => nomatch hlast
    · intro s call s' hs hok hstep
      obtain ⟨hinv, hahead⟩ := coherent_step hs.1 hstep
      exact ⟨hinv, hahead hok hs.2⟩
  exact hboth.1.timersAgree hboth.2

/-- An alarm for the examples. -/
def sampleAlarm : UVEAlarmInfo := ⟨"type1", 1, 100000000, "", ⟨none⟩, "", false⟩

def sampleId : AlarmId := ⟨"table1:name1", "type1"⟩

/-- Any order of the sets. -/
noncomputable def someOrder : SetOrder :=
  ⟨Finset.toList, Finset.nodup_toList, fun _ _ => Finset.mem_toList⟩

/-- The machine becomes active after one second. -/
def sampleCalls : List AlarmCall :=
  [.create sampleId ⟨1, 0, 0, 0, false⟩, .set_alarms sampleId sampleAlarm 100]

/-- The first sweep comes before the timer is over. -/
theorem timers_coherent_sample :
    ∃ s, alarmSystem.run (sampleCalls ++ [.run_timers someOrder 100]) = some s ∧
      sampleId ∈ s.tab_alarms_timer.at 101 ∧ s.last_timers_run = some 101 ∧ TimersAgree s := by
  obtain ⟨s, hs, htable⟩ : ∃ s, alarmSystem.run sampleCalls = some s ∧
      s.tab_alarms_timer.entries = [(101, {sampleId})] := ⟨_, rfl, by decide⟩
  have hset : alarmSystem.ReachableVia FirstSweepInTime s := by
    refine System.reachableVia_of_run hs fun a ha _ _ _ => ?_
    simp only [sampleCalls, List.mem_cons, List.not_mem_nil, or_false] at ha
    rcases ha with rfl | rfl <;> trivial
  have hok : FirstSweepInTime s (.run_timers someOrder 100) := by
    intro _ t k hmem
    have hat : t = 101 := by
      by_contra hne
      simp [TimerTable.at, OrderedMap.find?, htable, findList, hne] at hmem
    omega
  obtain ⟨s', hs', hrun, hmem, hlast⟩ :
      ∃ s', alarmSystem.step s (.run_timers someOrder 100) = some s' ∧
        alarmSystem.run (sampleCalls ++ [.run_timers someOrder 100]) = some s' ∧
        sampleId ∈ s'.tab_alarms_timer.at 101 ∧ s'.last_timers_run = some 101 := by
    obtain rfl : _ = s := Option.some.inj hs
    exact ⟨_, rfl, rfl, by decide, rfl⟩
  exact ⟨s', hrun, hmem, hlast, timers_coherent (.step hset hok hs')⟩

/-- A timer that is over before the first sweep stays in the table. -/
theorem timer_before_first_sweep_missed : ¬ ∀ s, alarmSystem.Reachable s → TimersAgree s := by
  intro hclaim
  obtain ⟨s, hs, hmem, hlast⟩ : ∃ s, alarmSystem.run (sampleCalls ++ [.run_timers someOrder 105]) =
      some s ∧ sampleId ∈ s.tab_alarms_timer.at 101 ∧ s.last_timers_run = some 106 :=
    ⟨_, rfl, by decide, rfl⟩
  have hahead := (hclaim s (System.reachable_of_run hs)).ahead 101 sampleId 106 hmem hlast
  omega

end TfAnalytics.OpServer
