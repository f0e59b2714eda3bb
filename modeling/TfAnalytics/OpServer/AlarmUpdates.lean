import TfAnalytics.OpServer.AlarmController

/-!
# Alarm generator — alarm updates

Every call of the controller leaves the timers and the machines in agreement, and
tells for each UVE whose alarms it changes what they are now.

* `examine_spec`, `withdrawAlarms_spec`, `alarm_ack_spec`, `stopUve_spec`: one UVE;
* `controllerStep_spec`: one call;
* `run_alarm_timers_exact`: when a sweep does what it should, from any reachable state;
* `reported_alarms_told`: the last trace of a UVE is what is reported for it.
-/

namespace TfAnalytics.OpServer

open TfAnalytics.Lib

-- ---------------------------------------------------------------------------
-- Raising and clearing the alarms of a UVE
-- ---------------------------------------------------------------------------

/-- The timers agree with the machines, and every machine has an alarm. -/
structure TablesInv (t : AlarmTables) : Prop where
  coherent : Coherent t.tab_alarms.machine t.tab_alarms_timer
  informed : ∀ k m, t.tab_alarms.machine k = some m → m.uai.isSome = true

/-- Only the alarms of one UVE differ. -/
def SameBut (uv : String) (tab_alarms tab_alarms' : TabAlarms) : Prop :=
  ∀ uv', uv' ≠ uv → tab_alarms'.find? uv' = tab_alarms.find? uv'

theorem SameBut.trans {uv : String} {tab tab' tab'' : TabAlarms} (h : SameBut uv tab tab')
    (h' : SameBut uv tab' tab'') : SameBut uv tab tab'' :=
  fun uv' hne => (h' uv' hne).trans (h uv' hne)

theorem sameBut_put (tab_alarms : TabAlarms) (k : AlarmId) (m : AlarmStateMachine) :
    SameBut k.uv tab_alarms (tab_alarms.put k m) ∧
      ((tab_alarms.put k m).find? k.uv).isSome = true := by
  refine ⟨fun uv hne => ?_, ?_⟩
  · rw [TabAlarms.put, OrderedMap.find?_assign, if_neg hne]
  · rw [TabAlarms.put, OrderedMap.find?_assign, if_pos rfl]
    rfl

theorem sameBut_clear {tab_alarms tab_alarms' : TabAlarms} {k : AlarmId} {m : AlarmStateMachine}
    {delete_alarm : Bool} (h : tab_alarms.clear k m delete_alarm = some tab_alarms') :
    SameBut k.uv tab_alarms tab_alarms' ∧ (tab_alarms'.find? k.uv).isSome = true := by
  obtain ⟨hput, hsome⟩ := sameBut_put tab_alarms k m
  unfold TabAlarms.clear at h
  split at h
  · obtain ⟨hsome', hothers⟩ := find?_del h
    exact ⟨hput.trans hothers, hsome'⟩
  · obtain rfl := Option.some.inj h
    exact ⟨hput, hsome⟩

/-- One machine changes, or goes. -/
theorem TablesInv.update {t t' : AlarmTables} (h : TablesInv t) {k : AlarmId}
    {new : Option AlarmStateMachine}
    (hmachine : t'.tab_alarms.machine = Function.update t.tab_alarms.machine k new)
    (hcoherent : Coherent (Function.update t.tab_alarms.machine k new) t'.tab_alarms_timer)
    (hinformed : ∀ m, new = some m → m.uai.isSome = true) : TablesInv t' := by
  refine ⟨hmachine ▸ hcoherent, fun k' m hm => ?_⟩
  rw [hmachine] at hm
  by_cases hk : k' = k
  · subst hk
    rw [Function.update_self] at hm
    exact hinformed m hm
  · rw [Function.update_of_ne hk] at hm
    exact h.informed k' m hm

section Examine

variable {α : Type} (inp : AlarmInputs α) (uv : String)

theorem raiseAlarm_spec {t : AlarmTables} (h : TablesInv t) (e : String × NewAlarm) :
    ∃ t', raiseAlarm inp uv t e = some t' ∧ TablesInv t' ∧
      SameBut uv t.tab_alarms t'.tab_alarms ∧ (t'.tab_alarms.find? uv).isSome = true := by
  let k : AlarmId := ⟨uv, e.1⟩
  let uai : UVEAlarmInfo := { e.2.uai with
    timestamp := (inp.clock k).usec, token := inp.token (inp.clock k).usec }
  -- The machine is there already, or it is created now.
  obtain ⟨m', timers', hset, hcoherent, -, huai⟩ : ∃ m' timers',
      (((t.tab_alarms.machine k).getD (.init e.2.uac)).set_uai uai).set_alarms t.tab_alarms_timer k
        (inp.clock k).sec = some (m', timers') ∧
      Coherent (Function.update t.tab_alarms.machine k (some m')) timers' ∧
      LaterThan (inp.clock k).sec t.tab_alarms_timer timers' ∧ m'.uai = some uai := by
    cases hm : t.tab_alarms.machine k with
    | some m => exact set_uai_spec h.coherent hm uai _
    | none =>
      obtain ⟨m', timers', hset, hcoherent, hspec⟩ := set_uai_spec
        (h.coherent.create hm e.2.uac) (Function.update_self k _ _) uai (inp.clock k).sec
      rw [Function.update_idem] at hcoherent
      exact ⟨m', timers', hset, hcoherent, hspec⟩
  obtain ⟨hothers, hsome⟩ := sameBut_put t.tab_alarms k m'
  refine ⟨{ t with tab_alarms := t.tab_alarms.put k m', tab_alarms_timer := timers' }, ?_, ?_,
    hothers, hsome⟩
  · rw [raiseAlarm, hset]
    rfl
  · refine h.update (machine_put_eq t.tab_alarms k m') hcoherent fun m hm => ?_
    obtain rfl := Option.some.inj hm
    rw [huai]
    rfl

theorem clearAlarm_spec {t : AlarmTables} (h : TablesInv t)
    (hsome : (t.tab_alarms.find? uv).isSome = true) (dnm : String) :
    ∃ t', clearAlarm inp uv t dnm = some t' ∧ TablesInv t' ∧
      SameBut uv t.tab_alarms t'.tab_alarms ∧ (t'.tab_alarms.find? uv).isSome = true := by
  cases hm : t.tab_alarms.machine ⟨uv, dnm⟩ with
  | none => exact ⟨t, by simp [clearAlarm, hm], h, fun _ _ => rfl, hsome⟩
  | some m =>
    obtain ⟨m', timers', del, hclear, hcoherent, -, huai⟩ := clear_alarms_spec h.coherent hm
      (inp.clock ⟨uv, dnm⟩).sec
    obtain ⟨tab', htab, hmachine⟩ := exists_clear t.tab_alarms ⟨uv, dnm⟩ m' del
    obtain ⟨hothers, hsome'⟩ := sameBut_clear htab
    refine ⟨{ t with tab_alarms := tab', tab_alarms_timer := timers' },
      by simp [clearAlarm, hm, hclear, htab], ?_, hothers, hsome'⟩
    refine h.update hmachine hcoherent fun m'' hm'' => ?_
    cases del with
    | true => cases hm''
    | false =>
      obtain rfl := Option.some.inj hm''
      rw [huai]
      exact h.informed _ m hm

/-- The alarms of a list are raised, or cleared, one by one. -/
theorem foldlM_alarms {β : Type} {f : AlarmTables → β → Option AlarmTables} {P : AlarmTables → Prop}
    (hstep : ∀ t, P t → ∀ b, ∃ t', f t b = some t' ∧ P t') (l : List β) {t : AlarmTables}
    (h : P t) : ∃ t', l.foldlM f t = some t' ∧ P t' := by
  induction l generalizing t with
  | nil => exact ⟨t, rfl, h⟩
  | cons b l ih =>
    obtain ⟨t₁, ht₁, h₁⟩ := hstep t h b
    obtain ⟨t', ht', h'⟩ := ih h₁
    exact ⟨t', by rw [List.foldlM_cons, ht₁, Option.bind_eq_bind, Option.bind_some, ht'], h'⟩

theorem newAlarms_isSome {t : AlarmTables} (h : TablesInv t)
    (uve_alarms : OrderedMap String NewAlarm) :
    ∃ l, newAlarms ((t.tab_alarms.find? uv).getD .empty) uve_alarms = some l := by
  unfold newAlarms
  induction uve_alarms.entries with
  | nil => exact ⟨[], rfl⟩
  | cons e rest ih =>
    obtain ⟨l, hl⟩ := ih
    rw [List.filterMapM_cons]
    cases hm : ((t.tab_alarms.find? uv).getD .empty).find? e.1 with
    | none => exact ⟨e :: l, by simp [hl]⟩
    | some asm =>
      obtain ⟨uai, huai⟩ := Option.isSome_iff_exists.mp
        (h.informed ⟨uv, e.1⟩ asm (by rw [machine_eq_find?, hm]))
      obtain ⟨same, hsame⟩ : ∃ same, asm.is_new_alarm_same e.2.uai = some same := by
        rw [AlarmStateMachine.is_new_alarm_same, huai]
        exact ⟨_, rfl⟩
      cases same with
      | true => exact ⟨l, by simp [hsame, hl]⟩
      | false => exact ⟨e :: l, by simp [hsame, hl]⟩

/-- What a change of one UVE's alarms leaves and sends. -/
structure Evaluated (uv : String) (t : AlarmTables) (res : AlarmTables × List AlarmTrace) : Prop where
  inv : TablesInv res.1
  others : SameBut uv t.tab_alarms res.1.tab_alarms
  told : res = (t, []) ∨ res.2 = [traceOf uv (res.1.tab_alarms.reported uv)]

/-- The trace says what is reported then. -/
theorem send_evaluated {t : AlarmTables} (t₁ : AlarmTables) (h : TablesInv t₁)
    (hothers : SameBut uv t.tab_alarms t₁.tab_alarms)
    (hsome : (t₁.tab_alarms.find? uv).isSome = true) :
    ∃ tab' trace, send_alarm_update t₁.tab_alarms uv = some (tab', trace) ∧ tab'.Kept uv ∧
      tab'.machine = t₁.tab_alarms.machine ∧
      Evaluated uv t ({ t₁ with tab_alarms := tab' }, [trace]) := by
  obtain ⟨tab', hsend, hmachine, hkept, hrest⟩ := send_alarm_update_spec hsome
  have heq : tab'.machine = t₁.tab_alarms.machine := funext hmachine
  refine ⟨tab', _, hsend, hkept, heq, ⟨?_, ?_⟩, hothers.trans hrest, Or.inr ?_⟩
  · rw [heq]
    exact h.coherent
  · rw [heq]
    exact h.informed
  · have hreported : tab'.reported uv = t₁.tab_alarms.reported uv :=
      reported_congr fun nm => by rw [hmachine]
    simp only [hreported]

theorem examine_spec (uve : OrderedMap String α) {t : AlarmTables} (h : TablesInv t) :
    ∃ res, examine_uve_for_alarms inp uv uve t = some res ∧ Evaluated uv t res := by
  obtain ⟨new_uve_alarms, hnew⟩ := newAlarms_isSome uv h (inp.uve_alarms uv uve)
  unfold examine_uve_for_alarms
  simp only [hnew, Option.bind_eq_bind, Option.bind_some]
  split
  · rename_i hchanged
    -- The UVE has an entry after the new alarms are raised, or had one before.
    obtain ⟨t₁, ht₁, h₁, hothers₁, hsome₁⟩ : ∃ t₁,
        new_uve_alarms.foldlM (raiseAlarm inp uv) t = some t₁ ∧ TablesInv t₁ ∧
        SameBut uv t.tab_alarms t₁.tab_alarms ∧ (t₁.tab_alarms.find? uv).isSome = true := by
      cases new_uve_alarms with
      | nil =>
        refine ⟨t, rfl, h, fun _ _ => rfl, ?_⟩
        by_contra hnone
        rw [Option.not_isSome_iff_eq_none] at hnone
        simp [delTypes, dictKeys, hnone, OrderedMap.empty] at hchanged
      | cons e rest =>
        obtain ⟨t₀, ht₀, h₀, hothers₀, hsome₀⟩ := raiseAlarm_spec inp uv h e
        obtain ⟨t₁, ht₁, hspec⟩ := foldlM_alarms (f := raiseAlarm inp uv)
          (P := fun t₁ => TablesInv t₁ ∧ SameBut uv t.tab_alarms t₁.tab_alarms ∧
            (t₁.tab_alarms.find? uv).isSome = true) (fun t₁ ht₁ e => by
              obtain ⟨t', ht', h', hothers', hsome'⟩ := raiseAlarm_spec inp uv ht₁.1 e
              exact ⟨t', ht', h', ht₁.2.1.trans hothers', hsome'⟩) rest ⟨h₀, hothers₀, hsome₀⟩
        refine ⟨t₁, ?_, hspec⟩
        rw [List.foldlM_cons, ht₀, Option.bind_eq_bind, Option.bind_some, ht₁]
    obtain ⟨t₂, ht₂, h₂, hothers₂, hsome₂⟩ := foldlM_alarms (f := clearAlarm inp uv)
      (P := fun t₂ => TablesInv t₂ ∧ SameBut uv t.tab_alarms t₂.tab_alarms ∧
        (t₂.tab_alarms.find? uv).isSome = true) (fun t₂ ht₂ dnm => by
          obtain ⟨t', ht', h', hothers', hsome'⟩ := clearAlarm_spec inp uv ht₂.1 ht₂.2.2 dnm
          exact ⟨t', ht', h', ht₂.2.1.trans hothers', hsome'⟩)
      (delTypes ((t.tab_alarms.find? uv).getD .empty) (inp.uve_alarms uv uve))
      ⟨h₁, hothers₁, hsome₁⟩
    obtain ⟨tab', trace, hsend, -, -, hspec⟩ := send_evaluated uv t₂ h₂ hothers₂ hsome₂
    exact ⟨_, by simp [ht₁, ht₂, hsend], hspec⟩
  · exact ⟨(t, []), rfl, h, fun _ _ => rfl, Or.inl rfl⟩

end Examine

-- ---------------------------------------------------------------------------
-- Withdrawing the alarms of a UVE
-- ---------------------------------------------------------------------------

section Withdraw

variable {α : Type} (inp : AlarmInputs α) (uv : String)

/-- The machines that are not yet to be deleted. -/
def withdrawLive (acc : AlarmTables × List AlarmId) (k : AlarmId) : Option AlarmStateMachine :=
  if k ∈ acc.2 then none else acc.1.tab_alarms.machine k

/-- The state of the loop that clears the alarms of a UVE. -/
structure Withdrawing (acc : AlarmTables × List AlarmId) : Prop where
  coherent : Coherent (withdrawLive acc) acc.1.tab_alarms_timer
  informed : ∀ k m, acc.1.tab_alarms.machine k = some m → m.uai.isSome = true
  nodup : acc.2.Nodup
  machine : ∀ k ∈ acc.2, k.uv = uv ∧ (acc.1.tab_alarms.machine k).isSome = true

theorem withdrawAlarm_spec {acc : AlarmTables × List AlarmId} (h : Withdrawing uv acc) {nm : String}
    (hnot : (⟨uv, nm⟩ : AlarmId) ∉ acc.2) {m : AlarmStateMachine}
    (hm : acc.1.tab_alarms.machine ⟨uv, nm⟩ = some m) :
    ∃ acc' m', withdrawAlarm inp uv acc nm = some acc' ∧ Withdrawing uv acc' ∧
      acc'.1.tab_alarms = acc.1.tab_alarms.put ⟨uv, nm⟩ m' ∧
      (∀ k, k ∈ acc'.2 → k ∈ acc.2 ∨ k = ⟨uv, nm⟩) ∧ acc.2 ⊆ acc'.2 ∧
      (m.GoesAtOnce → (⟨uv, nm⟩ : AlarmId) ∈ acc'.2) := by
  have hlive : withdrawLive acc ⟨uv, nm⟩ = some m := by
    rw [withdrawLive, if_neg hnot, hm]
  obtain ⟨m', timers', del, hclear, hcoherent, -, huai⟩ := clear_alarms_spec h.coherent hlive
    (inp.clock ⟨uv, nm⟩).sec
  have hdels : ∀ k, k ∈ (if del then acc.2 ++ [⟨uv, nm⟩] else acc.2) ↔
      k ∈ acc.2 ∨ del = true ∧ k = ⟨uv, nm⟩ := by
    intro k
    cases del <;> simp
  refine ⟨({ acc.1 with tab_alarms := acc.1.tab_alarms.put ⟨uv, nm⟩ m', tab_alarms_timer := timers' },
      if del then acc.2 ++ [⟨uv, nm⟩] else acc.2), m', by simp [withdrawAlarm, hm, hclear],
    ⟨?_, ?_, ?_, ?_⟩, rfl, ?_, ?_, ?_⟩
  · refine (congrArg (fun f => Coherent f timers') (funext fun k => ?_)).mp hcoherent
    simp only [withdrawLive, hdels, machine_put, Function.update_apply]
    by_cases hk : k = ⟨uv, nm⟩
    · cases del <;> simp [hk, hnot]
    · simp [hk]
  · intro k m₁ hm₁
    rw [machine_put] at hm₁
    split at hm₁
    · obtain rfl := Option.some.inj hm₁
      rw [huai]
      exact h.informed _ m hm
    · exact h.informed k m₁ hm₁
  · cases del with
    | false => exact h.nodup
    | true => exact h.nodup.append (List.nodup_singleton _) (List.disjoint_singleton.mpr hnot)
  · intro k hk
    rw [machine_put]
    rcases (hdels k).mp hk with hold | ⟨-, rfl⟩
    · obtain ⟨huv, hsome⟩ := h.machine k hold
      refine ⟨huv, ?_⟩
      split
      · rfl
      · exact hsome
    · simp
  · intro k hk
    exact ((hdels k).mp hk).imp_right And.right
  · intro k hk
    exact (hdels k).mpr (Or.inl hk)
  · intro hgoes
    exact (hdels _).mpr (Or.inr ⟨delete_clear_alarms hclear hgoes, rfl⟩)

theorem foldlM_withdrawAlarm (l : List String) (hl : l.Nodup) {acc : AlarmTables × List AlarmId}
    (h : Withdrawing uv acc)
    (hin : ∀ nm ∈ l, (⟨uv, nm⟩ : AlarmId) ∉ acc.2 ∧
      (acc.1.tab_alarms.machine ⟨uv, nm⟩).isSome = true) :
    ∃ acc', l.foldlM (withdrawAlarm inp uv) acc = some acc' ∧ Withdrawing uv acc' ∧
      SameBut uv acc.1.tab_alarms acc'.1.tab_alarms ∧
      (∀ k, (acc'.1.tab_alarms.machine k).isSome = (acc.1.tab_alarms.machine k).isSome) ∧
      acc.2 ⊆ acc'.2 ∧
      ∀ nm ∈ l, ∀ m, acc.1.tab_alarms.machine ⟨uv, nm⟩ = some m → m.GoesAtOnce →
        (⟨uv, nm⟩ : AlarmId) ∈ acc'.2 := by
  induction l generalizing acc with
  | nil =>
    exact ⟨acc, rfl, h, fun _ _ => rfl, fun _ => rfl, List.Subset.refl _,
      fun nm hnm => absurd hnm List.not_mem_nil⟩
  | cons nm l ih =>
    obtain ⟨hnm, hl⟩ := List.nodup_cons.mp hl
    obtain ⟨hnot, hsome⟩ := hin nm List.mem_cons_self
    obtain ⟨m, hm⟩ := Option.isSome_iff_exists.mp hsome
    obtain ⟨acc₁, m', hstep, h₁, htab₁, hdels₁, hsub₁, hgoes₁⟩ := withdrawAlarm_spec inp uv h hnot hm
    have hne : ∀ nm' ∈ l, (⟨uv, nm'⟩ : AlarmId) ≠ ⟨uv, nm⟩ := by
      intro nm' hnm' heq
      exact hnm ((AlarmId.mk.inj heq).2 ▸ hnm')
    obtain ⟨acc', hfold, h', hothers', hexists', hsub', hgoes'⟩ := ih hl h₁ (by
      intro nm' hnm'
      obtain ⟨hnot', hsome'⟩ := hin nm' (List.mem_cons_of_mem nm hnm')
      refine ⟨fun hmem => ?_, ?_⟩
      · exact (hdels₁ _ hmem).elim hnot' (hne nm' hnm')
      · rw [htab₁, machine_put, if_neg (hne nm' hnm')]
        exact hsome')
    refine ⟨acc', ?_, h', ?_, fun k => ?_, List.Subset.trans hsub₁ hsub', fun nm' hnm' m₁ hm₁ hgoes => ?_⟩
    · rw [List.foldlM_cons, hstep, Option.bind_eq_bind, Option.bind_some, hfold]
    · rw [htab₁] at hothers'
      exact (sameBut_put acc.1.tab_alarms ⟨uv, nm⟩ m').1.trans hothers'
    · rw [hexists', htab₁, machine_put]
      by_cases hk : k = ⟨uv, nm⟩
      · rw [if_pos hk, hk, hsome]
        rfl
      · rw [if_neg hk]
    · rcases List.mem_cons.mp hnm' with rfl | hmem
      · obtain rfl := Option.some.inj (hm.symm.trans hm₁)
        exact hsub' (hgoes₁ hgoes)
      · refine hgoes' nm' hmem m₁ ?_ hgoes
        rw [htab₁, machine_put, if_neg (hne nm' hmem)]
        exact hm₁

theorem nodup_dictKeys {β : Type} (m : OrderedMap String β) : (dictKeys m).Nodup :=
  List.Pairwise.map _ (fun _ _ hlt heq => absurd (heq ▸ hlt) (lt_irrefl _)) m.sorted

/-- Alarms with nothing to soak leave no entry of their UVE behind. -/
theorem withdrawAlarms_spec {t : AlarmTables} (h : TablesInv t) :
    ∃ res, withdrawAlarms inp uv t = some res ∧ Evaluated uv t res ∧
      ((∀ nm m, t.tab_alarms.machine ⟨uv, nm⟩ = some m → m.GoesAtOnce) →
        res.1.tab_alarms.find? uv = none) := by
  unfold withdrawAlarms
  cases halarms : t.tab_alarms.find? uv with
  | none => exact ⟨(t, []), rfl, ⟨h, fun _ _ => rfl, Or.inl rfl⟩, fun _ => halarms⟩
  | some alarms =>
    have hmachine : ∀ nm, t.tab_alarms.machine ⟨uv, nm⟩ = alarms.find? nm := by
      intro nm
      rw [machine_eq_find?, halarms, Option.getD_some]
    -- the loop clears one alarm after the other
    have hstart : Withdrawing uv (t, []) := by
      refine ⟨?_, h.informed, List.nodup_nil, fun k hk => absurd hk List.not_mem_nil⟩
      rw [show withdrawLive (t, []) = t.tab_alarms.machine from funext fun k => by simp [withdrawLive]]
      exact h.coherent
    obtain ⟨⟨t₁, dels⟩, hfold, h₁, hothers₁, hexists₁, -, hgoes₁⟩ := foldlM_withdrawAlarm inp uv
      (dictKeys alarms) (nodup_dictKeys alarms) hstart (by
        intro nm hnm
        refine ⟨List.not_mem_nil, ?_⟩
        rw [hmachine, Option.isSome_iff_ne_none]
        exact mem_dictKeys.mp hnm)
    -- those that go at once are deleted behind it
    obtain ⟨tab₂, hdel, htab₂, hkeys₂, hothers₂⟩ := foldlM_del dels h₁.nodup
      t₁.tab_alarms fun k hk => (h₁.machine k hk).2
    have hlive : tab₂.machine = withdrawLive (t₁, dels) := by
      funext k
      rw [htab₂, withdrawLive]
    have h₂ : TablesInv { t₁ with tab_alarms := tab₂ } := by
      refine ⟨?_, fun k m hm => ?_⟩
      · rw [hlive]
        exact h₁.coherent
      · rw [htab₂] at hm
        split at hm
        · cases hm
        · exact h₁.informed k m hm
    have hsome₁ : (t₁.tab_alarms.find? uv).isSome = true := by
      -- If the loop had no alarm to clear, nothing has changed.
      cases hkeys : dictKeys alarms with
      | nil =>
        rw [hkeys] at hfold
        obtain rfl := congrArg Prod.fst (Option.some.inj hfold)
        rw [halarms]
        rfl
      | cons nm rest =>
        have hnm : (t.tab_alarms.machine ⟨uv, nm⟩).isSome = true := by
          rw [hmachine, Option.isSome_iff_ne_none]
          exact mem_dictKeys.mp (hkeys ▸ List.mem_cons_self)
        rw [← hexists₁] at hnm
        exact isSome_find?_of_machine hnm
    -- what is left of the UVE is sent
    obtain ⟨tab', trace, hsend, hkept, hmachine', hspec⟩ := send_evaluated uv (t := t)
      { t₁ with tab_alarms := tab₂ } h₂
      (hothers₁.trans fun uv' hne => hothers₂ uv' fun k hk => (h₁.machine k hk).1 ▸ hne)
      (by rw [hkeys₂]; exact hsome₁)
    refine ⟨_, by simp [hfold, hdel, hsend], hspec, fun hgoes => ?_⟩
    -- an alarm that stays would have gone at once, and be deleted
    by_contra hsome
    obtain ⟨nm, hnm⟩ := hkept (Option.isSome_iff_ne_none.mpr hsome)
    rw [hmachine', htab₂] at hnm
    split at hnm
    · cases hnm
    · rename_i hnot
      rw [hexists₁] at hnm
      obtain ⟨m, hm⟩ := Option.isSome_iff_exists.mp hnm
      refine hnot (hgoes₁ nm ?_ m hm (hgoes nm m hm))
      rw [mem_dictKeys, ← hmachine]
      exact Option.isSome_iff_ne_none.mp hnm

end Withdraw

-- ---------------------------------------------------------------------------
-- Acknowledgements and partitions
-- ---------------------------------------------------------------------------

theorem mem_reported {tab_alarms : TabAlarms} {k : AlarmId} {m : AlarmStateMachine}
    {uai : UVEAlarmInfo} (hm : tab_alarms.machine k = some m) (huai : m.get_uai = some uai) :
    uai ∈ tab_alarms.reported k.uv := by
  rw [reported_eq, almCopy, List.mem_filterMap]
  refine ⟨(k.nm, m), OrderedMap.mem_entries.mpr ?_, huai⟩
  rw [← machine_eq_find?, hm]

/-- An alarm that is acknowledged is reported as before. -/
theorem get_uai_set_uai {m : AlarmStateMachine} {uai : UVEAlarmInfo} (h : m.get_uai = some uai)
    (new : UVEAlarmInfo) : (m.set_uai new).get_uai = some new := by
  rw [get_uai_eq] at h ⊢
  split at h
  · rename_i hstate
    exact if_pos hstate
  · cases h

theorem alarm_ack_spec {t : AlarmTables} (h : TablesInv t) (alarm_req : SandeshAlarmAckRequest) :
    Evaluated (alarm_req.table ++ ":" ++ alarm_req.name) t (alarm_ack_callback alarm_req t).2 := by
  let k : AlarmId := ⟨alarm_req.table ++ ":" ++ alarm_req.name, alarm_req.type⟩
  have hnothing : Evaluated k.uv t (t, []) := ⟨h, fun _ _ => rfl, Or.inl rfl⟩
  unfold alarm_ack_callback
  cases hacked : ackedMachine t.tab_alarms alarm_req with
  | none => exact hnothing
  | some m =>
    cases huai : m.get_uai with
    | none => simpa [huai] using hnothing
    | some uai =>
      simp only [huai]
      split
      · exact hnothing
      · split
        · exact hnothing
        · have hm : t.tab_alarms.machine k = some m := by
            unfold ackedMachine at hacked
            split at hacked
            · cases hacked
            · exact hacked
          let new : UVEAlarmInfo := { uai with ack := true }
          have hput := machine_put_eq t.tab_alarms k (m.set_uai new)
          have hself : (t.tab_alarms.put k (m.set_uai new)).machine k = some (m.set_uai new) := by
            rw [hput, Function.update_self]
          have hothers := (sameBut_put t.tab_alarms k (m.set_uai new)).1
          refine ⟨?_, hothers, Or.inr ?_⟩
          · refine h.update hput (h.coherent.set_uai hm new) fun m' hm' => ?_
            obtain rfl := Option.some.inj hm'
            rfl
          · -- The list is not empty: the alarm itself is in it.
            have hmem := mem_reported hself (get_uai_set_uai huai new)
            rw [reported_eq] at hmem ⊢
            simp only [traceOf, List.length_eq_zero_iff]
            rw [if_neg (List.ne_nil_of_mem hmem)]

/-- The timers of the alarms of a UVE. -/
theorem foldlM_delete_timers (uv : String) (l : List (String × AlarmStateMachine))
    (hl : (l.map Prod.fst).Nodup) {machine : AlarmId → Option AlarmStateMachine} {timers : TimerTable}
    (h : Coherent machine timers) (hmachine : ∀ e ∈ l, machine ⟨uv, e.1⟩ = some e.2) :
    ∃ timers', l.foldlM (fun timers e => e.2.delete_timers timers ⟨uv, e.1⟩) timers =
        some timers' ∧
      Coherent (fun k => if k.uv = uv ∧ k.nm ∈ l.map Prod.fst then none else machine k) timers' := by
  induction l generalizing machine timers with
  | nil => exact ⟨timers, rfl, by simpa using h⟩
  | cons e l ih =>
    obtain ⟨he, hl⟩ := List.nodup_cons.mp hl
    obtain ⟨timers₁, hdelete, h₁, -⟩ := delete_timers_spec h (hmachine e List.mem_cons_self)
    obtain ⟨timers', hfold, h'⟩ := ih hl h₁ (by
      intro e' he'
      have hne : (⟨uv, e'.1⟩ : AlarmId) ≠ ⟨uv, e.1⟩ := by
        intro heq
        exact he ((AlarmId.mk.inj heq).2 ▸ List.mem_map_of_mem he')
      rw [Function.update_of_ne hne]
      exact hmachine e' (List.mem_cons_of_mem e he'))
    refine ⟨timers', ?_, ?_⟩
    · rw [List.foldlM_cons, hdelete, Option.bind_eq_bind, Option.bind_some, hfold]
    · refine (congrArg (fun f => Coherent f timers') (funext fun k => ?_)).mp h'
      obtain ⟨uv', nm'⟩ := k
      simp only [Function.update_apply, List.map_cons, List.mem_cons, AlarmId.mk.injEq]
      by_cases huv : uv' = uv
      · by_cases hnm : nm' = e.1
        · simp [huv, hnm]
        · simp only [huv, hnm, true_and, false_or, if_false]
      · simp [huv]

theorem stopUve_spec {acc : AlarmTables × List AlarmTrace} (h : TablesInv acc.1) (uk : String) :
    ∃ t' traces, stopUve acc uk = some (t', acc.2 ++ traces) ∧ Evaluated uk acc.1 (t', traces) ∧
      t'.tab_alarms.find? uk = none ∧ (acc.1.tab_alarms.find? uk = none → traces = []) := by
  unfold stopUve
  cases halarms : acc.1.tab_alarms.find? uk with
  | none => exact ⟨acc.1, [], by simp, ⟨h, fun _ _ => rfl, Or.inl rfl⟩, halarms, fun _ => rfl⟩
  | some alarms =>
    have hmachine : ∀ nm, acc.1.tab_alarms.machine ⟨uk, nm⟩ = alarms.find? nm := by
      intro nm
      rw [machine_eq_find?, halarms, Option.getD_some]
    obtain ⟨timers', hfold, hcoherent⟩ := foldlM_delete_timers uk alarms.entries
      (nodup_dictKeys alarms) h.coherent fun e he => by
        rw [hmachine]
        exact OrderedMap.mem_entries.mp he
    have hgone : (acc.1.tab_alarms.erase uk).find? uk = none := by
      rw [OrderedMap.find?_erase, if_pos rfl]
    have herase : TabAlarms.machine (acc.1.tab_alarms.erase uk) = fun k =>
        if k.uv = uk ∧ k.nm ∈ alarms.entries.map Prod.fst then none
        else acc.1.tab_alarms.machine k := by
      funext k
      obtain ⟨uv, nm⟩ := k
      simp only [machine_eq_find? (acc.1.tab_alarms.erase uk), OrderedMap.find?_erase]
      by_cases huv : uv = uk
      · subst huv
        have hmem : nm ∈ alarms.entries.map Prod.fst ↔ alarms.find? nm ≠ none := mem_dictKeys
        by_cases hnm : alarms.find? nm = none <;> simp [hmem, hnm, hmachine]
      · simp [huv, machine_eq_find?]
    refine ⟨{ acc.1 with tab_alarms := acc.1.tab_alarms.erase uk, tab_alarms_timer := timers' },
      [⟨uk, none⟩], by simp [delete_tab_alarms_timer, halarms, hfold],
      ⟨⟨?_, fun k m hm => ?_⟩, fun uv hne => ?_, Or.inr ?_⟩, hgone, nofun⟩
    · rw [herase]
      exact hcoherent
    · simp only [herase] at hm
      split at hm
      · cases hm
      · exact h.informed k m hm
    · rw [OrderedMap.find?_erase, if_neg hne]
    · rw [TabAlarms.reported, hgone]
      rfl

-- ---------------------------------------------------------------------------
-- The last trace of a UVE
-- ---------------------------------------------------------------------------

def lastTrace (sent : List AlarmTrace) (uv : String) : Option AlarmTrace :=
  (sent.filter fun trace => trace.uv = uv).getLast?

theorem lastTrace_append (sent traces : List AlarmTrace) (uv : String) :
    lastTrace (sent ++ traces) uv = (lastTrace traces uv).or (lastTrace sent uv) := by
  rw [lastTrace, List.filter_append, List.getLast?_append]
  rfl

theorem lastTrace_eq_none {traces : List AlarmTrace} {uv : String} :
    lastTrace traces uv = none ↔ ∀ trace ∈ traces, trace.uv ≠ uv := by
  simp [lastTrace]

theorem mem_of_lastTrace {traces : List AlarmTrace} {uv : String} {trace : AlarmTrace}
    (h : lastTrace traces uv = some trace) : trace ∈ traces ∧ trace.uv = uv := by
  have hmem := List.mem_filter.mp (List.mem_of_getLast? h)
  exact ⟨hmem.1, by simpa using hmem.2⟩

/-- What is reported is said in the last trace, and does not change without one. -/
def Tells (t : AlarmTables) (res : AlarmTables × List AlarmTrace) : Prop :=
  ∀ uv, match lastTrace res.2 uv with
    | none => res.1.tab_alarms.reported uv = t.tab_alarms.reported uv
    | some trace => trace = traceOf uv (res.1.tab_alarms.reported uv)

theorem tells_of {t : AlarmTables} {res : AlarmTables × List AlarmTrace}
    (hquiet : ∀ uv, (∀ trace ∈ res.2, trace.uv ≠ uv) →
      res.1.tab_alarms.reported uv = t.tab_alarms.reported uv)
    (hcurrent : ∀ trace ∈ res.2, trace = traceOf trace.uv (res.1.tab_alarms.reported trace.uv)) :
    Tells t res := by
  intro uv
  cases hlast : lastTrace res.2 uv with
  | none => exact hquiet uv (lastTrace_eq_none.mp hlast)
  | some trace =>
    obtain ⟨hmem, rfl⟩ := mem_of_lastTrace hlast
    exact hcurrent trace hmem

theorem Tells.append {t : AlarmTables} {res res' : AlarmTables × List AlarmTrace}
    (h : Tells t res) (h' : Tells res.1 res') : Tells t (res'.1, res.2 ++ res'.2) := by
  intro uv
  have hfirst := h uv
  have hsecond := h' uv
  simp only [lastTrace_append]
  cases hlast' : lastTrace res'.2 uv with
  | some trace =>
    rw [hlast'] at hsecond
    exact hsecond
  | none =>
    rw [hlast'] at hsecond
    simp only [Option.none_or]
    cases hlast : lastTrace res.2 uv with
    | some trace =>
      rw [hlast] at hfirst
      simp only at hfirst hsecond ⊢
      rw [hsecond]
      exact hfirst
    | none =>
      rw [hlast] at hfirst
      exact hsecond.trans hfirst

theorem Timed.tells {t : AlarmTables} {curr_time : Nat} {res : AlarmTables × List AlarmTrace}
    (h : Timed t curr_time res) : Tells t res :=
  tells_of (fun _ hquiet => h.reported_eq curr_time hquiet) h.current

theorem Evaluated.tells {uv : String} {t : AlarmTables} {res : AlarmTables × List AlarmTrace}
    (h : Evaluated uv t res) : Tells t res := by
  rcases h.told with rfl | htraces
  · exact tells_of (fun _ _ => rfl) fun trace htrace => absurd htrace List.not_mem_nil
  · refine tells_of (fun uv' hquiet => ?_) fun trace htrace => ?_
    · refine reported_congr_find (h.others uv' ?_)
      rintro rfl
      exact hquiet _ (htraces ▸ List.mem_singleton_self _) rfl
    · rw [htraces, List.mem_singleton] at htrace
      rw [htrace]
      rfl

theorem Evaluated.quiet {uv uv' : String} {t : AlarmTables} {res : AlarmTables × List AlarmTrace}
    (h : Evaluated uv t res) (hne : uv' ≠ uv) : ∀ trace ∈ res.2, trace.uv ≠ uv' := by
  intro trace htrace
  rcases h.told with rfl | htraces
  · exact absurd htrace List.not_mem_nil
  · rw [htraces, List.mem_singleton] at htrace
    rw [htrace]
    exact hne.symm

/-- Nothing is kept or said of a UVE without alarms. -/
def Silent (uv : String) (t : AlarmTables) (res : AlarmTables × List AlarmTrace) : Prop :=
  t.tab_alarms.find? uv = none →
    res.1.tab_alarms.find? uv = none ∧ ∀ trace ∈ res.2, trace.uv ≠ uv

theorem Evaluated.silent {uv uv' : String} {t : AlarmTables} {res : AlarmTables × List AlarmTrace}
    (h : Evaluated uv t res) (hne : uv' ≠ uv) : Silent uv' t res :=
  fun hnone => ⟨(h.others uv' hne).trans hnone, h.quiet hne⟩

theorem Timed.silent {t : AlarmTables} {curr_time : Nat} {res : AlarmTables × List AlarmTrace}
    (h : Timed t curr_time res) (uv : String) : Silent uv t res := by
  refine fun hnone => ⟨h.keys uv hnone, fun trace htrace huv => ?_⟩
  obtain ⟨nm, m, hm, -⟩ := (h.sent uv).mp ⟨trace, htrace, huv⟩
  rw [machine_eq_find?, hnone] at hm
  cases hm

/-- The UVEs of a partition, one by one. -/
theorem foldlM_stopUve (l : List String) (acc : AlarmTables × List AlarmTrace)
    (h : TablesInv acc.1) :
    ∃ t' traces, l.foldlM stopUve acc = some (t', acc.2 ++ traces) ∧ TablesInv t' ∧
      Tells acc.1 (t', traces) ∧ (∀ uv ∈ l, t'.tab_alarms.find? uv = none) ∧
      (∀ uv, uv ∉ l → t'.tab_alarms.find? uv = acc.1.tab_alarms.find? uv) ∧
      ∀ uv, Silent uv acc.1 (t', traces) := by
  induction l generalizing acc with
  | nil =>
    refine ⟨acc.1, [], by simp, h, tells_of (fun _ _ => rfl) ?_, ?_, fun _ _ => rfl, ?_⟩
    · exact fun trace htrace => absurd htrace List.not_mem_nil
    · exact fun uv huv => absurd huv List.not_mem_nil
    · exact fun uv hnone => ⟨hnone, fun trace htrace => absurd htrace List.not_mem_nil⟩
  | cons uk l ih =>
    obtain ⟨t₁, traces₁, hstep, h₁, hgone₁, hnothing₁⟩ := stopUve_spec h uk
    obtain ⟨t', traces', hfold, h', htells', hgone', hothers', hsilent'⟩ :=
      ih (t₁, acc.2 ++ traces₁) h₁.inv
    refine ⟨t', traces₁ ++ traces', ?_, h', h₁.tells.append htells', fun uv huv => ?_,
      fun uv huv => ?_, fun uv hnone => ?_⟩
    · rw [List.foldlM_cons, hstep, Option.bind_eq_bind, Option.bind_some, hfold]
      simp
    · by_cases hmem : uv ∈ l
      · exact hgone' uv hmem
      · rw [hothers' uv hmem]
        rcases List.mem_cons.mp huv with rfl | hlater
        · exact hgone₁
        · exact absurd hlater hmem
    · rw [List.mem_cons, not_or] at huv
      rw [hothers' uv huv.2]
      exact h₁.others uv huv.1
    · have hfirst : t₁.tab_alarms.find? uv = none ∧ ∀ trace ∈ traces₁, trace.uv ≠ uv := by
        by_cases heq : uv = uk
        · subst heq
          rw [hnothing₁ hnone]
          exact ⟨hgone₁, fun trace htrace => absurd htrace List.not_mem_nil⟩
        · exact h₁.silent heq hnone
      obtain ⟨hnone', hquiet'⟩ := hsilent' uv hfirst.1
      refine ⟨hnone', fun trace htrace => ?_⟩
      exact (List.mem_append.mp htrace).elim (hfirst.2 trace) (hquiet' trace)

-- ---------------------------------------------------------------------------
-- Steps of the controller
-- ---------------------------------------------------------------------------

section Steps

variable {α : Type} [DecidableEq α]

/-- The call is not about this UVE. -/
def Elsewhere (uv : String) : ControllerCall α → Prop
  | .handle_uve_notif _ uv' _ _ _ => uv ≠ uv'
  | .alarm_config_change _ uv' _ => uv ≠ uv'
  | _ => True

/-- A sweep does not fail. -/
def NoLoss (c : Controller α) : ControllerCall α → Prop
  | .run_alarm_timers _ curr_time =>
    ¬ LosesUpdated c.tables (sweptSeconds c.tables.last_timers_run curr_time)
  | _ => True

/-- What a call leaves and sends. -/
structure Stepped (c : Controller α) (call : ControllerCall α) (c' : Controller α)
    (traces : List AlarmTrace) : Prop where
  inv : TablesInv c'.tables
  sent : c'.sent = c.sent ++ traces
  tells : Tells c.tables (c'.tables, traces)
  silent : ∀ uv, Elsewhere uv call → Silent uv c.tables (c'.tables, traces)

omit [DecidableEq α] in
theorem stepped_evaluated {c c₁ : Controller α} {call : ControllerCall α} {uv : String}
    {res : AlarmTables × List AlarmTrace} (hsent : c₁.sent = c.sent)
    (h : Evaluated uv c.tables res) (helsewhere : ∀ uv', Elsewhere uv' call → uv' ≠ uv) :
    Stepped c call (c₁.tell res) res.2 :=
  ⟨h.inv, congrArg (· ++ res.2) hsent, h.tells, fun uv' hcall => h.silent (helsewhere uv' hcall)⟩

/-- One UVE of a batch: its alarms are examined, or withdrawn. -/
theorem notifUve_spec {c : Controller α} (h : TablesInv c.tables) (get_uve : GetUve α)
    (inp : AlarmInputs α) (part : Nat) (e : String × Types) :
    ∃ res, c.notifUve get_uve inp part e = some (Controller.tell
        { c with
          ptab_info := c.ptab_info.assign part
            (processUve get_uve ((c.ptab_info.find? part).getD .empty, .empty) e).1
          processed := c.processed ++ [(part, e.1)] } res) ∧
      Evaluated e.1 c.tables res ∧
      ((processUve get_uve ((c.ptab_info.find? part).getD .empty, .empty) e).1.find? e.1 = none →
        (∀ nm m, c.tables.tab_alarms.machine ⟨e.1, nm⟩ = some m → m.GoesAtOnce) →
        res.1.tab_alarms.find? e.1 = none) := by
  obtain ⟨res, hwithdraw, hwithdrawn, hgone⟩ := withdrawAlarms_spec inp e.1 h
  unfold Controller.notifUve
  cases hinfo : (processUve get_uve ((c.ptab_info.find? part).getD .empty, .empty) e).1.find? e.1 with
  | none => exact ⟨res, by simp [hinfo, hwithdraw], hwithdrawn, fun _ => hgone⟩
  | some info =>
    by_cases halarms : dictKeys info.current_dict = ["UVEAlarms"]
    · exact ⟨res, by simp [hinfo, halarms, hwithdraw], hwithdrawn, nofun⟩
    · obtain ⟨res', hexamine, hexamined⟩ := examine_spec inp e.1 info.current_dict h
      exact ⟨res', by simp [hinfo, halarms, hexamine], hexamined, nofun⟩

omit [DecidableEq α] in
theorem stop_uve_partition_spec {c : Controller α} (h : TablesInv c.tables) (part : Nat) :
    ∃ c' traces, c.stop_uve_partition part = some c' ∧ TablesInv c'.tables ∧
      c'.sent = c.sent ++ traces ∧ Tells c.tables (c'.tables, traces) ∧
      (∀ uv, Silent uv c.tables (c'.tables, traces)) ∧
      c'.ptab_info = c.ptab_info.erase part ∧ c'.processed = c.processed ∧
      (∀ uv, ((c.ptab_info.find? part).bind fun ptab => ptab.find? uv) ≠ none →
        c'.tables.tab_alarms.find? uv = none) ∧
      ∀ uv, ((c.ptab_info.find? part).bind fun ptab => ptab.find? uv) = none →
        c'.tables.tab_alarms.find? uv = c.tables.tab_alarms.find? uv := by
  unfold Controller.stop_uve_partition
  cases hpart : c.ptab_info.find? part with
  | none =>
    refine ⟨c, [], rfl, h, by simp, tells_of (fun _ _ => rfl) ?_, fun uv hnone => ⟨hnone, ?_⟩, ?_, rfl,
      by simp, fun _ _ => rfl⟩
    · exact fun trace htrace => absurd htrace List.not_mem_nil
    · exact fun trace htrace => absurd htrace List.not_mem_nil
    · refine OrderedMap.ext_find fun part' => ?_
      rw [OrderedMap.find?_erase]
      by_cases heq : part' = part
      · rw [if_pos heq, heq, hpart]
      · rw [if_neg heq]
  | some ptab =>
    obtain ⟨t', traces, hfold, h', htells, hgone, hothers, hsilent⟩ :=
      foldlM_stopUve (dictKeys ptab) (c.tables, []) h
    refine ⟨{ c.tell (t', traces) with ptab_info := c.ptab_info.erase part }, traces,
      by simp [hfold], h', rfl, htells, hsilent, rfl, rfl, fun uv huv => ?_, fun uv huv => ?_⟩
    · exact hgone uv (mem_dictKeys.mpr huv)
    · exact hothers uv fun hmem => mem_dictKeys.mp hmem huv

/-- Every call succeeds, but a sweep that loses an updated UVE. -/
theorem controllerStep_spec {c : Controller α} (h : TablesInv c.tables) (call : ControllerCall α)
    (hok : NoLoss c call) :
    ∃ c' traces, controllerStep c call = some c' ∧ Stepped c call c' traces := by
  cases call with
  | handle_uve_notif part uv types get_uve inp =>
    obtain ⟨res, hnotif, hevaluated, -⟩ := notifUve_spec h get_uve inp part (uv, types)
    exact ⟨_, res.2, hnotif, stepped_evaluated rfl hevaluated fun _ hne => hne⟩
  | alarm_config_change part uv inp =>
    unfold controllerStep Controller.configChange
    cases hinfo : (c.ptab_info.find? part).bind fun ptab => ptab.find? uv with
    | none =>
      have hnothing : Evaluated uv c.tables (c.tables, []) := ⟨h, fun _ _ => rfl, Or.inl rfl⟩
      refine ⟨c, [], by simp [hinfo], h, by simp, hnothing.tells, ?_⟩
      exact fun uv' hne => hnothing.silent hne
    | some info =>
      obtain ⟨res, hexamine, hevaluated⟩ := examine_spec inp uv info.current_dict h
      exact ⟨c.tell res, res.2, by simp [hinfo, hexamine],
        stepped_evaluated rfl hevaluated fun _ hne => hne⟩
  | run_alarm_timers order curr_time =>
    obtain ⟨res, hrun, htimed⟩ := run_alarm_timers_spec h.coherent order curr_time hok
    refine ⟨c.tell res, res.2, by simp [controllerStep, hrun], ⟨htimed.coherent, fun k m hm => ?_⟩,
      rfl, htimed.tells, fun uv _ => htimed.silent uv⟩
    change res.1.tab_alarms.machine k = some m at hm
    rw [htimed.machine] at hm
    obtain ⟨m₀, hm₀, hsweep⟩ := Option.bind_eq_some_iff.mp hm
    rw [AlarmStateMachine.uai_sweep hsweep]
    exact h.informed k m₀ hm₀
  | alarm_ack_callback alarm_req =>
    have hevaluated := alarm_ack_spec h alarm_req
    refine ⟨_, (alarm_ack_callback alarm_req c.tables).2.2, rfl, hevaluated.inv, rfl,
      hevaluated.tells, fun uv _ => ?_⟩
    by_cases huv : uv = alarm_req.table ++ ":" ++ alarm_req.name
    · intro hnone
      have hacked : ackedMachine c.tables.tab_alarms alarm_req = none := by
        unfold ackedMachine
        split
        · rfl
        · rw [machine_eq_find?, ← huv, hnone]
          rfl
      have hnothing : alarm_ack_callback alarm_req c.tables = (.ALARM_NOT_PRESENT, c.tables, []) := by
        simp [alarm_ack_callback, hacked]
      rw [hnothing]
      exact ⟨hnone, fun trace htrace => absurd htrace List.not_mem_nil⟩
    · exact hevaluated.silent huv
  | stop_uve_partition part =>
    obtain ⟨c', traces, hstop, hinv, hsent, htells, hsilent, -⟩ := stop_uve_partition_spec h part
    exact ⟨c', traces, hstop, hinv, hsent, htells, fun uv _ => hsilent uv⟩

/-- A sweep that succeeds loses no UVE. -/
theorem noLoss_of_step {c c' : Controller α} (h : TablesInv c.tables) {call : ControllerCall α}
    (hstep : controllerStep c call = some c') : NoLoss c call := by
  cases call with
  | run_alarm_timers order curr_time =>
    intro hlost
    simp [controllerStep, run_alarm_timers_fails h.coherent order curr_time hlost] at hstep
  | _ => trivial

theorem stepped_of_step {c c' : Controller α} (h : TablesInv c.tables) {call : ControllerCall α}
    (hstep : controllerStep c call = some c') : ∃ traces, Stepped c call c' traces := by
  obtain ⟨c₁, traces, hc₁, hstepped⟩ := controllerStep_spec h call (noLoss_of_step h hstep)
  obtain rfl := Option.some.inj (hc₁.symm.trans hstep)
  exact ⟨traces, hstepped⟩

theorem tablesInv_init : TablesInv (controllerSystem α).init.tables :=
  ⟨alarmInv_init.coherent, fun k m hm => by cases hm⟩

theorem tablesInv_reachable {c : Controller α} (h : (controllerSystem α).Reachable c) :
    TablesInv c.tables := by
  refine h.invariant (P := fun c => TablesInv c.tables) tablesInv_init ?_
  intro c call c' hinv hstep
  obtain ⟨traces, hstepped⟩ := stepped_of_step hinv hstep
  exact hstepped.inv

/-- An alarm that soaks before it goes away, and what the clock says. -/
def sampleInputs (found : Bool) (sec : Nat) : AlarmInputs Nat where
  uve_alarms _ _ := if found then .ofList [("type1", ⟨sampleAlarm, ⟨0, 1, 0, 1, false⟩⟩)] else .empty
  clock _ := ⟨sec * 1000000, sec⟩
  token _ := ""

/-- A UVE with one struct, or without any. -/
def sampleGetUve (present : Bool) : GetUve Nat :=
  fun _ _ => (false, if present then .ofList [("S", 1)] else .empty)

def sampleNotif (present found : Bool) : ControllerCall Nat :=
  .handle_uve_notif 0 "table1:name1" none (sampleGetUve present) (sampleInputs found 100)

/-- An alarm is raised and cleared, and soaks until 101. -/
noncomputable def soakingCalls : List (ControllerCall Nat) :=
  [.run_alarm_timers someOrder 99, sampleNotif true true, sampleNotif true false]

/-- The state after an alarm has been raised and cleared. -/
theorem soaking_runs : ∃ c m, (controllerSystem Nat).run soakingCalls = some c ∧
    c.tables.last_timers_run = some 100 ∧
    c.tables.tab_alarms = .ofList [("table1:name1", .ofList [("type1", m)])] ∧
    m.uas.state = .Soak_Idle ∧ m.idleTimeout = some 101 ∧ m.uac.FreqCheck_Seconds = 1 :=
  ⟨_, _, rfl, rfl, rfl, rfl, rfl, rfl⟩

theorem machine_sample {tab_alarms : TabAlarms} {m m' : AlarmStateMachine} {k : AlarmId}
    (htab : tab_alarms = .ofList [("table1:name1", .ofList [("type1", m)])])
    (hm : tab_alarms.machine k = some m') : k = sampleId ∧ m' = m := by
  obtain ⟨uv, nm⟩ := k
  rw [htab, TabAlarms.machine, OrderedMap.find?_ofList] at hm
  simp only [findList] at hm
  split at hm
  · rename_i huv
    rw [Option.bind_some, OrderedMap.find?_ofList] at hm
    simp only [findList] at hm
    split at hm
    · rename_i hnm
      exact ⟨by rw [huv, hnm]; rfl, (Option.some.inj hm).symm⟩
    · cases hm
  · cases hm

/-- From any reachable state a sweep does what it should if and only if it passes no
timer of a machine that should be gone, and no UVE loses all its alarms while one of
them expires twice. -/
theorem run_alarm_timers_exact {c : Controller α} (h : (controllerSystem α).Reachable c)
    (order : SetOrder) (curr_time : Nat) :
    SweepOk c.tables order curr_time ↔
      NoneMissed c.tables curr_time ∧ TwiceKept c.tables curr_time :=
  sweepOk_iff (tablesInv_reachable h).coherent order curr_time

theorem run_alarm_timers_sample : ∃ c, (controllerSystem Nat).Reachable c ∧
    SweepOk c.tables someOrder 101 := by
  obtain ⟨c, m, hrun, -, htab, hstate, hidle, hfreq⟩ := soaking_runs
  have hnot : ¬ m.Expired 101 := by
    rintro (⟨hidle', -⟩ | ⟨-, t, ht, hle⟩)
    · rw [hstate] at hidle'
      cases hidle'
    · obtain rfl := Option.some.inj (ht.symm.trans hidle)
      omega
  have hreachable := System.reachable_of_run hrun
  refine ⟨c, hreachable, (run_alarm_timers_exact hreachable someOrder 101).mpr
    ⟨fun k m' hm' hexpired => ?_, fun k m' hm' _ => ?_⟩⟩
  · obtain ⟨-, rfl⟩ := machine_sample htab hm'
    exact absurd hexpired hnot
  · obtain ⟨-, rfl⟩ := machine_sample htab hm'
    exact ⟨k.nm, m', hm', hnot⟩

/-- The idle timeout and the delete timeout of the only alarm of a UVE are over. -/
theorem run_alarm_timers_key_error : ¬ ∀ c, (controllerSystem Nat).Reachable c →
    ∀ order curr_time, (∀ last, c.tables.last_timers_run = some last → last ≤ curr_time + 1) →
      SweepOk c.tables order curr_time := by
  intro hclaim
  obtain ⟨c, m, hrun, hlast, htab, hstate, hidle, hfreq⟩ := soaking_runs
  have hreachable := System.reachable_of_run hrun
  have hok := hclaim c hreachable someOrder 105 fun last hsome => by
    obtain rfl := Option.some.inj (hlast.symm.trans hsome)
    omega
  obtain ⟨-, hkept⟩ := (sweepOk_iff (tablesInv_reachable hreachable).coherent someOrder 105).mp hok
  have hm : c.tables.tab_alarms.machine sampleId = some m := by
    rw [htab]
    rfl
  obtain ⟨nm, m', hm', hexpired⟩ := hkept sampleId m hm
    ⟨hstate, by omega, 101, hidle, by omega⟩
  obtain ⟨-, rfl⟩ := machine_sample htab hm'
  exact hexpired (Or.inr ⟨hstate, 101, hidle, by omega⟩)

/-- The last trace of a UVE lists its alarms, and says that it is deleted when there
are none. -/
structure Told (c : Controller α) (uv : String) : Prop where
  never : lastTrace c.sent uv = none → c.tables.tab_alarms.reported uv = []
  alarms : ∀ trace, lastTrace c.sent uv = some trace → trace.alarms =
    if c.tables.tab_alarms.reported uv = [] then none else some (c.tables.tab_alarms.reported uv)

omit [DecidableEq α] in
theorem Stepped.told {c c' : Controller α} {call : ControllerCall α} {traces : List AlarmTrace}
    (h : Stepped c call c' traces) {uv : String} (htold : Told c uv) : Told c' uv := by
  have htells := h.tells uv
  have hlast := lastTrace_append c.sent traces uv
  rw [← h.sent] at hlast
  cases htraces : lastTrace traces uv with
  | none =>
    rw [htraces] at htells hlast
    rw [Option.none_or] at hlast
    simp only at htells
    refine ⟨fun hnone => ?_, fun trace hsome => ?_⟩
    · rw [htells]
      exact htold.never (hlast ▸ hnone)
    · rw [htells]
      exact htold.alarms trace (hlast ▸ hsome)
  | some trace =>
    rw [htraces] at htells hlast
    refine ⟨fun hnone => ?_, fun trace' hsome => ?_⟩
    · rw [hlast] at hnone
      cases hnone
    · rw [hlast] at hsome
      obtain rfl := Option.some.inj hsome
      simp only at htells
      rw [htells]
      simp only [traceOf, List.length_eq_zero_iff]

/-- No machine expires twice in a sweep. -/
def SweepsOnce (c : Controller α) : ControllerCall α → Prop
  | .run_alarm_timers _ curr_time =>
    ∀ k m, c.tables.tab_alarms.machine k = some m → ¬ m.ExpiresTwice curr_time
  | _ => True

omit [DecidableEq α] in
theorem SweepsOnce.noLoss {c : Controller α} {call : ControllerCall α} (h : SweepsOnce c call) :
    NoLoss c call := by
  cases call with
  | run_alarm_timers order curr_time =>
    rintro ⟨k, m, hm, hupdate, hnone⟩
    have hself := hnone k.nm
    rw [show (⟨k.uv, k.nm⟩ : AlarmId) = k from rfl, hm] at hself
    exact h k m hm ((swept_twice_iff hself).mp hupdate)
  | _ => trivial

/-- In every run in which no machine expires twice in a sweep, no call fails and the
last trace of each UVE is what is reported for it. -/
theorem reported_alarms_told {c : Controller α}
    (h : (controllerSystem α).ReachableVia SweepsOnce c) :
    (∀ uv, Told c uv) ∧ ∀ call, SweepsOnce c call → (controllerStep c call).isSome = true := by
  have hboth : TablesInv c.tables ∧ ∀ uv, Told c uv := by
    refine h.invariant (P := fun c => TablesInv c.tables ∧ ∀ uv, Told c uv)
      ⟨tablesInv_init, fun uv => ⟨fun _ => rfl, fun trace htrace => by cases htrace⟩⟩ ?_
    intro c call c' hc _ hstep
    obtain ⟨traces, hstepped⟩ := stepped_of_step hc.1 hstep
    exact ⟨hstepped.inv, fun uv => hstepped.told (hc.2 uv)⟩
  refine ⟨hboth.2, fun call hcall => ?_⟩
  obtain ⟨c', traces, hc', -⟩ := controllerStep_spec hboth.1 call hcall.noLoss
  rw [hc']
  rfl

theorem reported_alarms_sample : ∃ c, (controllerSystem Nat).ReachableVia SweepsOnce c ∧
    c.tables.tab_alarms.reported "table1:name1" = [sampleAlarm] ∧ Told c "table1:name1" := by
  have hfirst : SweepsOnce (controllerSystem Nat).init (.run_alarm_timers someOrder 99) :=
    fun k m hm => by cases hm
  obtain ⟨c, hstep⟩ : ∃ c, controllerStep (controllerSystem Nat).init (.run_alarm_timers someOrder 99) =
      some c := ⟨_, rfl⟩
  obtain ⟨c', hstep', hreported⟩ : ∃ c', controllerStep c (sampleNotif true true) = some c' ∧
      c'.tables.tab_alarms.reported "table1:name1" = [sampleAlarm] := by
    obtain rfl := Option.some.inj hstep
    exact ⟨_, rfl, rfl⟩
  have hreachable : (controllerSystem Nat).ReachableVia SweepsOnce c' :=
    .step (a := sampleNotif true true) (.step .init hfirst hstep) trivial hstep'
  exact ⟨c', hreachable, hreported, (reported_alarms_told hreachable).1 _⟩

end Steps

end TfAnalytics.OpServer
