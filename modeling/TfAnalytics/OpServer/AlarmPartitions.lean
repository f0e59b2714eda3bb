import TfAnalytics.OpServer.AlarmUpdates

/-!
# Alarm generator — partitions that are given up

`stop_uve_partition` withdraws the alarms of the UVEs that `ptab_info` has for the
partition. `stopped_partition_silent` says when these are all.
-/

namespace TfAnalytics.OpServer

open TfAnalytics.Lib

-- ---------------------------------------------------------------------------
-- Giving up a partition
-- ---------------------------------------------------------------------------

section Partitions

variable {α : Type} [DecidableEq α]

/-- What the copy of a partition has of a UVE. -/
def Controller.copyOf (c : Controller α) (part : Nat) (uv : String) : Option (AGKeyInfo α) :=
  (c.ptab_info.find? part).bind fun ptab => ptab.find? uv

/-- There is no alarm of the UVE, and no timer. -/
def NoAlarms (c : Controller α) (uv : String) : Prop :=
  c.tables.tab_alarms.find? uv = none ∧ ∀ t k, k ∈ c.tables.tab_alarms_timer.at t → k.uv ≠ uv

/-- Giving up the partition leaves no alarm of the UVEs that were ever processed for
it, and nothing is sent for such a UVE until it is processed again. -/
def StopsSilent (c : Controller α) (part : Nat) : Prop :=
  ∃ c', c.stop_uve_partition part = some c' ∧ ∀ uv, (part, uv) ∈ c.processed →
    NoAlarms c' uv ∧ ∀ (calls : List (ControllerCall α)) c'', (∀ call ∈ calls, Elsewhere uv call) →
      calls.foldlM controllerStep c' = some c'' →
      NoAlarms c'' uv ∧ ∃ traces, c''.sent = c'.sent ++ traces ∧ ∀ trace ∈ traces, trace.uv ≠ uv

/-- Notifications of a UVE come on its own partition, and no UVE is deleted while one
of its alarms has to soak or to wait. -/
def DeletesUnsoaked (partOf : String → Nat) (c : Controller α) : ControllerCall α → Prop
  | .handle_uve_notif part uv types get_uve _ => partOf uv = part ∧
    ((processUve get_uve ((c.ptab_info.find? part).getD .empty, .empty) (uv, types)).1.find? uv = none →
      ∀ nm m, c.tables.tab_alarms.machine ⟨uv, nm⟩ = some m → m.GoesAtOnce)
  | _ => True

/-- The UVEs with alarms are those of the copies, each in its own partition. -/
structure Placed (partOf : String → Nat) (c : Controller α) : Prop where
  inv : TablesInv c.tables
  known : ∀ uv, c.tables.tab_alarms.find? uv ≠ none → c.copyOf (partOf uv) uv ≠ none
  placed : ∀ part uv, c.copyOf part uv ≠ none → partOf uv = part
  processed : ∀ part uv, (part, uv) ∈ c.processed → partOf uv = part

omit [DecidableEq α] in
theorem TablesInv.noAlarms {c : Controller α} (h : TablesInv c.tables) {uv : String}
    (hnone : c.tables.tab_alarms.find? uv = none) : NoAlarms c uv := by
  refine ⟨hnone, fun t k hk huv => ?_⟩
  obtain ⟨m, hm, -⟩ := (h.coherent.mem t k).mp hk
  obtain ⟨uv', nm⟩ := k
  obtain rfl : uv' = uv := huv
  rw [machine_eq_find?, hnone] at hm
  cases hm

omit [DecidableEq α] in
theorem Placed.same_copies {partOf : String → Nat} {c c' : Controller α} (h : Placed partOf c)
    (hinv : TablesInv c'.tables) (hptab : c'.ptab_info = c.ptab_info)
    (hprocessed : c'.processed = c.processed)
    (hknown : ∀ uv, c'.tables.tab_alarms.find? uv ≠ none → c.copyOf (partOf uv) uv ≠ none) :
    Placed partOf c' := by
  have hcopy : ∀ part uv, c'.copyOf part uv = c.copyOf part uv := by
    intro part uv
    rw [Controller.copyOf, hptab, Controller.copyOf]
  refine ⟨hinv, fun uv huv => ?_, fun part uv huv => ?_, fun part uv huv => ?_⟩
  · rw [hcopy]
    exact hknown uv huv
  · exact h.placed part uv (hcopy part uv ▸ huv)
  · exact h.processed part uv (hprocessed ▸ huv)

theorem placed_notif {partOf : String → Nat} {c c' : Controller α} (h : Placed partOf c) {part : Nat}
    {uv : String} {types : Types} {get_uve : GetUve α} {inp : AlarmInputs α}
    (hok : DeletesUnsoaked partOf c (.handle_uve_notif part uv types get_uve inp))
    (hstep : c.notifUve get_uve inp part (uv, types) = some c') : Placed partOf c' := by
  obtain ⟨rfl, hdeleted⟩ := hok
  obtain ⟨res, hnotif, hevaluated, hgone⟩ := notifUve_spec h.inv get_uve inp (partOf uv) (uv, types)
  obtain rfl := Option.some.inj (hnotif.symm.trans hstep)
  -- The copy of the partition changes for this UVE only.
  have hcopy : ∀ part uv', uv' ≠ uv → Controller.copyOf (Controller.tell
      { c with
        ptab_info := c.ptab_info.assign (partOf uv)
          (processUve get_uve ((c.ptab_info.find? (partOf uv)).getD .empty, .empty) (uv, types)).1
        processed := c.processed ++ [(partOf uv, uv)] } res) part uv' = c.copyOf part uv' := by
    intro part uv' hne
    simp only [Controller.copyOf, Controller.tell, OrderedMap.find?_assign]
    by_cases hpart : part = partOf uv
    · subst hpart
      rw [if_pos rfl, Option.bind_some, find?_processUve_of_ne get_uve _ _ hne]
      cases c.ptab_info.find? (partOf uv) <;> rfl
    · rw [if_neg hpart]
  refine ⟨hevaluated.inv, fun uv' huv' => ?_, fun part uv' huv' => ?_, fun part uv' huv' => ?_⟩
  · by_cases heq : uv' = uv
    · subst heq
      simp only [Controller.copyOf, Controller.tell, OrderedMap.find?_assign, if_true,
        Option.bind_some]
      exact fun hnone => huv' (hgone hnone (hdeleted hnone))
    · rw [hcopy _ uv' heq]
      refine h.known uv' ?_
      rw [← hevaluated.others uv' heq]
      exact huv'
  · by_cases heq : uv' = uv
    · subst heq
      by_contra hpart
      simp only [Controller.copyOf, Controller.tell, OrderedMap.find?_assign,
        if_neg (Ne.symm hpart)] at huv'
      exact hpart (h.placed part uv' huv')
    · rw [hcopy part uv' heq] at huv'
      exact h.placed part uv' huv'
  · rcases List.mem_append.mp huv' with hold | hnew
    · exact h.processed part uv' hold
    · obtain ⟨rfl, rfl⟩ := Prod.mk.inj (List.mem_singleton.mp hnew)
      rfl

omit [DecidableEq α] in
theorem placed_configChange {partOf : String → Nat} {c c' : Controller α} (h : Placed partOf c)
    {inp : AlarmInputs α} {part : Nat} {uv : String}
    (hstep : c.configChange inp part uv = some c') : Placed partOf c' := by
  unfold Controller.configChange at hstep
  split at hstep
  · obtain rfl := Option.some.inj hstep
    exact h
  · rename_i info hinfo
    obtain ⟨res, hexamine, rfl⟩ := Option.map_eq_some_iff.mp hstep
    obtain ⟨res', hexamine', hevaluated⟩ := examine_spec inp uv info.current_dict h.inv
    obtain rfl := Option.some.inj (hexamine'.symm.trans hexamine)
    have hcopy : c.copyOf part uv ≠ none := by
      rw [Controller.copyOf, hinfo]
      exact Option.some_ne_none info
    refine h.same_copies hevaluated.inv rfl rfl fun uv' huv' => ?_
    by_cases heq : uv' = uv
    · subst heq
      rw [h.placed part uv' hcopy]
      exact hcopy
    · refine h.known uv' ?_
      rw [← hevaluated.others uv' heq]
      exact huv'

omit [DecidableEq α] in
theorem placed_stop {partOf : String → Nat} {c c' : Controller α} (h : Placed partOf c)
    {part : Nat} (hstep : c.stop_uve_partition part = some c') : Placed partOf c' := by
  obtain ⟨c₁, traces₁, hstop, hinv, -, -, -, hptab, hprocessed, hgone, hothers⟩ :=
    stop_uve_partition_spec h.inv part
  obtain rfl := Option.some.inj (hstop.symm.trans hstep)
  have hcopy : ∀ part' uv, c₁.copyOf part' uv = if part' = part then none else c.copyOf part' uv := by
    intro part' uv
    rw [Controller.copyOf, hptab, OrderedMap.find?_erase]
    by_cases heq : part' = part
    · rw [if_pos heq, if_pos heq]
      rfl
    · rw [if_neg heq, if_neg heq]
      rfl
  refine ⟨hinv, fun uv huv => ?_, fun part' uv huv => ?_, fun part' uv huv => ?_⟩
  · by_cases hknown : c.copyOf part uv = none
    · rw [hothers uv hknown] at huv
      have hcopied := h.known uv huv
      rw [hcopy, if_neg]
      · exact hcopied
      · intro heq
        exact hcopied (heq ▸ hknown)
    · exact absurd (hgone uv hknown) huv
  · rw [hcopy] at huv
    split at huv
    · exact absurd rfl huv
    · exact h.placed part' uv huv
  · exact h.processed part' uv (hprocessed ▸ huv)

theorem placed_step {partOf : String → Nat} {c c' : Controller α} {call : ControllerCall α}
    (h : Placed partOf c) (hok : DeletesUnsoaked partOf c call)
    (hstep : controllerStep c call = some c') : Placed partOf c' := by
  obtain ⟨traces, hstepped⟩ := stepped_of_step h.inv hstep
  cases call with
  | handle_uve_notif part uv types get_uve inp => exact placed_notif h hok hstep
  | alarm_config_change part uv inp => exact placed_configChange h hstep
  | run_alarm_timers order curr_time =>
    obtain ⟨res, -, rfl⟩ := Option.map_eq_some_iff.mp hstep
    exact h.same_copies hstepped.inv rfl rfl fun uv huv =>
      h.known uv fun hnone => huv (hstepped.silent uv trivial hnone).1
  | alarm_ack_callback alarm_req =>
    obtain rfl := Option.some.inj hstep
    exact h.same_copies hstepped.inv rfl rfl fun uv huv =>
      h.known uv fun hnone => huv (hstepped.silent uv trivial hnone).1
  | stop_uve_partition part => exact placed_stop h hstep

/-- Calls that are not about a UVE without alarms leave it so. -/
theorem noAlarms_run {uv : String} (calls : List (ControllerCall α))
    (hcalls : ∀ call ∈ calls, Elsewhere uv call) {c c' : Controller α} (h : TablesInv c.tables)
    (hnone : c.tables.tab_alarms.find? uv = none)
    (hrun : calls.foldlM controllerStep c = some c') :
    NoAlarms c' uv ∧ ∃ traces, c'.sent = c.sent ++ traces ∧ ∀ trace ∈ traces, trace.uv ≠ uv := by
  induction calls generalizing c with
  | nil =>
    obtain rfl := Option.some.inj hrun
    exact ⟨h.noAlarms hnone, [], by simp, fun trace htrace => absurd htrace List.not_mem_nil⟩
  | cons call calls ih =>
    rw [List.foldlM_cons] at hrun
    obtain ⟨c₁, hstep, hrun⟩ := Option.bind_eq_some_iff.mp hrun
    obtain ⟨traces₁, hstepped⟩ := stepped_of_step h hstep
    obtain ⟨hnone₁, hquiet₁⟩ := hstepped.silent uv (hcalls call List.mem_cons_self) hnone
    obtain ⟨hno, traces, hsent, hquiet⟩ := ih
      (fun call' hcall' => hcalls call' (List.mem_cons_of_mem call hcall')) hstepped.inv hnone₁ hrun
    refine ⟨hno, traces₁ ++ traces, ?_, fun trace htrace => ?_⟩
    · rw [hsent, hstepped.sent, List.append_assoc]
    · exact (List.mem_append.mp htrace).elim (hquiet₁ trace) (hquiet trace)

theorem placed_init (partOf : String → Nat) : Placed partOf (controllerSystem α).init where
  inv := tablesInv_init
  known _ huv := absurd rfl huv
  placed _ _ huv := absurd rfl huv
  processed _ _ huv := absurd huv List.not_mem_nil

/-- In every run in which no UVE is deleted while one of its alarms has to soak or to
wait, giving up a partition leaves no alarm behind. -/
theorem stopped_partition_silent (partOf : String → Nat) {c : Controller α}
    (h : (controllerSystem α).ReachableVia (DeletesUnsoaked partOf) c) (part : Nat) :
    StopsSilent c part := by
  have hplaced : Placed partOf c :=
    h.invariant (placed_init partOf) fun _ _ _ hc hok hstep => placed_step hc hok hstep
  obtain ⟨c', traces, hstop, hinv, -, -, -, -, -, hgone, hothers⟩ :=
    stop_uve_partition_spec hplaced.inv part
  refine ⟨c', hstop, fun uv huv => ?_⟩
  have hnone : c'.tables.tab_alarms.find? uv = none := by
    by_cases hknown : c.copyOf part uv = none
    · rw [hothers uv hknown]
      by_contra hsome
      exact hplaced.known uv hsome (hplaced.processed part uv huv ▸ hknown)
    · exact hgone uv hknown
  exact ⟨hinv.noAlarms hnone, fun calls c'' hcalls hrun => noAlarms_run calls hcalls hinv hnone hrun⟩

/-- An alarm that goes as soon as it is cleared. -/
def unsoakedInputs : AlarmInputs Nat where
  uve_alarms _ _ := .ofList [("type1", ⟨sampleAlarm, ⟨0, 0, 0, 0, false⟩⟩)]
  clock _ := ⟨100000000, 100⟩
  token _ := ""

def unsoakedNotif (present : Bool) : ControllerCall Nat :=
  .handle_uve_notif 0 "table1:name1" none (sampleGetUve present) unsoakedInputs

/-- The alarm is raised, and its UVE is deleted before the partition is given up. -/
theorem stopped_partition_sample : ∃ c c',
    controllerStep (controllerSystem Nat).init (unsoakedNotif true) = some c ∧
    (c.tables.tab_alarms.machine sampleId).isSome = true ∧
    controllerStep c (unsoakedNotif false) = some c' ∧ c'.copyOf 0 "table1:name1" = none ∧
    (0, "table1:name1") ∈ c'.processed ∧ StopsSilent c' 0 := by
  obtain ⟨c, m, hraise, htab, hgoes, c', hstep, hcopy, hprocessed⟩ : ∃ c m,
      controllerStep (controllerSystem Nat).init (unsoakedNotif true) = some c ∧
      c.tables.tab_alarms = .ofList [("table1:name1", .ofList [("type1", m)])] ∧ m.GoesAtOnce ∧
      ∃ c', controllerStep c (unsoakedNotif false) = some c' ∧
        c'.copyOf 0 "table1:name1" = none ∧ (0, "table1:name1") ∈ c'.processed :=
    ⟨_, _, rfl, rfl, ⟨rfl, .inr ⟨rfl, rfl⟩⟩, _, rfl, rfl, List.mem_cons_self⟩
  have hpresent : DeletesUnsoaked (fun _ => 0) (controllerSystem Nat).init (unsoakedNotif true) :=
    ⟨rfl, fun hnone => by cases hnone⟩
  have hdeleted : DeletesUnsoaked (fun _ => 0) c (unsoakedNotif false) := by
    refine ⟨rfl, fun _ nm m' hm' => ?_⟩
    rw [(machine_sample htab hm').2]
    exact hgoes
  refine ⟨c, c', hraise, ?_, hstep, hcopy, hprocessed, stopped_partition_silent (fun _ => 0)
    (.step (.step .init hpresent hraise) hdeleted hstep) 0⟩
  rw [htab]
  rfl

/-- The UVE is deleted while its alarm soaks, and the alarm outlives the partition. -/
theorem soaking_alarm_left : ¬ ∀ c, (controllerSystem Nat).Reachable c → ∀ part,
    StopsSilent c part := by
  intro hclaim
  obtain ⟨c, c', hrun, hprocessed, hstop, hsome⟩ : ∃ c c',
      (controllerSystem Nat).run [sampleNotif true true, sampleNotif false true] = some c ∧
      (0, "table1:name1") ∈ c.processed ∧ c.stop_uve_partition 0 = some c' ∧
      (c'.tables.tab_alarms.find? "table1:name1").isSome = true :=
    ⟨_, _, rfl, List.mem_cons_self, rfl, rfl⟩
  obtain ⟨c₁, hstop₁, hsilent⟩ := hclaim c (System.reachable_of_run hrun) 0
  obtain rfl := Option.some.inj (hstop.symm.trans hstop₁)
  rw [(hsilent _ hprocessed).1.1] at hsome
  cases hsome

end Partitions

end TfAnalytics.OpServer
