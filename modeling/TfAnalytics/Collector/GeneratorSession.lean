import TfAnalytics.Lib.Transition
import Mathlib.Logic.Function.Basic

/-!
# Collector — generators and their sessions

The collector (collector.cc, generator.cc) keeps a `SandeshGenerator` for each generator
id. A generator points at the session it is connected on and the session at its
generator. A control message connects them; a failed `GetSeq`, the loss of redis or the
end of the session takes them apart.

The calls of one session are serialised by its state machine. Calls of different sessions
interleave between their critical sections: `gen_map_mutex_` is held while a control
message looks up and connects the generator, and `mutex_` of the generator by each of
`session()`, `ConnectSession` and `DisconnectSession`, which are single steps here. An
assertion that fails and a null pointer that is followed have no next state.

* `generatorInv_step`: the invariant, for the steps of every call;
* `sessions_paired`: pairing, what is set together, and when UVEs are deleted.
-/

namespace TfAnalytics.Collector

open TfAnalytics.Lib

-- ---------------------------------------------------------------------------
-- Generators
-- ---------------------------------------------------------------------------

structure GeneratorId where
  source : String
  module_name : String
  instance_id : String
  node_type : String
  deriving DecidableEq

/-- Sessions and state machines are known by their address. -/
abbrev SessionPtr := Nat

abbrev StateMachinePtr := Nat

/-- `sm_defer_timer_` is whether there is a timer. -/
structure SandeshGenerator where
  viz_session_ : Option SessionPtr
  state_machine_ : Option StateMachinePtr
  sm_defer_timer_ : Bool
  disconnected_ : Bool
  connects : Nat
  resets : Nat

namespace SandeshGenerator

def new (session : SessionPtr) (state_machine : StateMachinePtr) : SandeshGenerator :=
  ⟨some session, some state_machine, true, false, 1, 0⟩

/-- `CreateStateMachineDeferTimer` asserts that there is no timer. -/
def ConnectSession (gen : SandeshGenerator) (session : SessionPtr) (state_machine : StateMachinePtr) :
    Option SandeshGenerator :=
  if gen.sm_defer_timer_ then none
  else some ⟨some session, some state_machine, true, false, gen.connects + 1, gen.resets⟩

/-- The part of `DisconnectSession` for the generator's own session. It follows
`state_machine_` and `sm_defer_timer_`. -/
def disconnect (gen : SandeshGenerator) : Option SandeshGenerator :=
  if gen.state_machine_.isSome && gen.sm_defer_timer_ then
    some ⟨none, none, false, true, gen.connects, gen.resets + 1⟩
  else none

end SandeshGenerator

-- ---------------------------------------------------------------------------
-- The collector
-- ---------------------------------------------------------------------------

/-- What a session's call does next. -/
inductive CallState where
  | idle
  /-- under `gen_map_mutex_`: the generator was found in the map -/
  | found (id : GeneratorId) (state_machine : StateMachinePtr)
  /-- under `gen_map_mutex_`: `gen->session()` was NULL -/
  | connecting (id : GeneratorId) (state_machine : StateMachinePtr)
  /-- under `gen_map_mutex_`: before `vsession->set_generator(gen)` -/
  | entering (id : GeneratorId)
  /-- `GetSeq` of a control message -/
  | negotiating (id : GeneratorId)
  /-- `GetSeq` of a resource update -/
  | updating (id : GeneratorId)
  /-- before `gen->DisconnectSession(vsession)` -/
  | disconnecting (id : GeneratorId)
  deriving DecidableEq

/-- What happens to a generator. -/
inductive GenEvent where
  | connected (id : GeneratorId) (session : SessionPtr)
  | lost (id : GeneratorId) (session : SessionPtr)
  | DeleteUVEs (id : GeneratorId)
  deriving DecidableEq

/-- `generator_` is that of the sessions, `log` what happened so far. -/
structure CollectorState where
  gen_map_ : GeneratorId → Option SandeshGenerator
  gen_map_mutex_ : Option SessionPtr
  generator_ : SessionPtr → Option GeneratorId
  call : SessionPtr → CallState
  log : List GenEvent

/-- `SandeshCtrlClientToServer`, and whether redis is initialised. -/
structure CtrlMsg where
  source : String
  module_name : String
  instance_id_name : String
  node_type_name : String
  redis_init_done : Bool

def CtrlMsg.id (msg : CtrlMsg) : GeneratorId :=
  ⟨msg.source, msg.module_name, msg.instance_id_name, msg.node_type_name⟩

inductive CollectorEvent where
  | ReceiveSandeshCtrlMsg (session : SessionPtr) (state_machine : StateMachinePtr) (msg : CtrlMsg)
  | ReceiveResourceUpdate (session : SessionPtr) (rsc : Bool)
  | DisconnectSession (session : SessionPtr)
  /-- the next step of the session's call; what `GetSeq` returns if it is called -/
  | advance (session : SessionPtr) (retc : Bool)

namespace CollectorState

variable (st : CollectorState)

/-- `gen->session()`. -/
def session (id : GeneratorId) : Option SessionPtr := (st.gen_map_ id).bind SandeshGenerator.viz_session_

def setCall (s : SessionPtr) (call : CallState) : CollectorState :=
  { st with call := Function.update st.call s call }

def setGenerator (s : SessionPtr) (generator : Option GeneratorId) : CollectorState :=
  { st with generator_ := Function.update st.generator_ s generator }

def setGen (id : GeneratorId) (gen : SandeshGenerator) : CollectorState :=
  { st with gen_map_ := Function.update st.gen_map_ id (some gen) }

def lock (s : SessionPtr) : CollectorState := { st with gen_map_mutex_ := some s }

def release : CollectorState := { st with gen_map_mutex_ := none }

def record (events : List GenEvent) : CollectorState := { st with log := st.log ++ events }

/-- From the start up to the lookup in `gen_map_`. -/
def ReceiveSandeshCtrlMsg (s : SessionPtr) (state_machine : StateMachinePtr) (msg : CtrlMsg) :
    Option CollectorState :=
  if msg.instance_id_name = "" ∨ msg.node_type_name = "" ∨ msg.redis_init_done = false then some st
  else if st.gen_map_mutex_.isSome then none
  else
    match st.gen_map_ msg.id with
    | none =>
      some ((((st.lock s).setGen msg.id (.new s state_machine)).record [.connected msg.id s]).setCall s
        (.entering msg.id))
    | some _ => some ((st.lock s).setCall s (.found msg.id state_machine))

def ReceiveResourceUpdate (s : SessionPtr) (rsc : Bool) : CollectorState :=
  match st.generator_ s with
  | none => st
  | some id => if rsc then st.setCall s (.updating id) else st.setCall s (.disconnecting id)

/-- `assert(gen)`. -/
def DisconnectSession (s : SessionPtr) : Option CollectorState :=
  (st.generator_ s).map fun id => st.setCall s (.disconnecting id)

/-- `SandeshGenerator::DisconnectSession`. For another session than its own the generator
follows `viz_session_` to log it. -/
def genDisconnectSession (id : GeneratorId) (s : SessionPtr) : Option CollectorState :=
  match st.gen_map_ id with
  | none => none
  | some gen =>
    if gen.viz_session_ = some s then
      gen.disconnect.map fun gen =>
        ((st.setGen id gen).setGenerator s none).record [.lost id s, .DeleteUVEs id]
    else if gen.viz_session_.isSome then some st
    else none

/-- The next step of a call. `EnqueueClose` only asks the state machine of the other
session to disconnect, which is a call of its own. -/
def advance (s : SessionPtr) (retc : Bool) : Option CollectorState :=
  match st.call s with
  | .idle => none
  | .found id state_machine =>
    match st.session id with
    | none => some (st.setCall s (.connecting id state_machine))
    | some _ => some (st.release.setCall s .idle)
  | .connecting id state_machine =>
    match st.gen_map_ id with
    | none => none
    | some gen =>
      (gen.ConnectSession s state_machine).map fun gen =>
        (((st.setGen id gen).setGenerator s (some id)).record [.connected id s]).setCall s (.entering id)
  | .entering id => some ((st.setGenerator s (some id)).release.setCall s (.negotiating id))
  | .negotiating id =>
    if retc then
      -- gen->ReceiveSandeshCtrlMsg follows state_machine_
      ((st.gen_map_ id).bind SandeshGenerator.state_machine_).map fun _ => st.setCall s .idle
    else some (st.setCall s (.disconnecting id))
  | .updating id => some (st.setCall s (if retc then .idle else .disconnecting id))
  | .disconnecting id => (st.genDisconnectSession id s).map fun st => st.setCall s .idle

/-- A session's call starts when its last one is over. -/
def step : CollectorEvent → Option CollectorState
  | .ReceiveSandeshCtrlMsg s state_machine msg =>
    if st.call s = .idle then st.ReceiveSandeshCtrlMsg s state_machine msg else none
  | .ReceiveResourceUpdate s rsc =>
    if st.call s = .idle then some (st.ReceiveResourceUpdate s rsc) else none
  | .DisconnectSession s => if st.call s = .idle then st.DisconnectSession s else none
  | .advance s retc => st.advance s retc

end CollectorState

def collectorSystem : System CollectorState CollectorEvent where
  init := ⟨fun _ => none, none, fun _ => none, fun _ => .idle, []⟩
  step := CollectorState.step

-- ---------------------------------------------------------------------------
-- What should hold
-- ---------------------------------------------------------------------------

/-- A session always sends the same generator id. -/
def SendsOneId (idOf : SessionPtr → GeneratorId) : CollectorEvent → Prop
  | .ReceiveSandeshCtrlMsg s _ msg => msg.id = idOf s
  | _ => True

/-- Session, state machine and timer are all set, or none of them is. -/
def SandeshGenerator.AllOrNone (gen : SandeshGenerator) : Prop :=
  gen.state_machine_.isSome = gen.viz_session_.isSome ∧ gen.sm_defer_timer_ = gen.viz_session_.isSome

/-- Where a generator is: without a session, connected, or with its UVEs still to be
deleted. -/
inductive GenPhase where
  | free
  | connected (session : SessionPtr)
  | owing
  deriving DecidableEq

/-- A generator is connected when it is free, loses the session it has, and has its UVEs
deleted once for that. Anything else is no history of a generator. -/
def genPhase (id : GeneratorId) (phase : Option GenPhase) (event : GenEvent) : Option GenPhase :=
  match event with
  | .connected id' s =>
    if id' = id then (if phase = some .free then some (.connected s) else none) else phase
  | .lost id' s =>
    if id' = id then (if phase = some (.connected s) then some .owing else none) else phase
  | .DeleteUVEs id' =>
    if id' = id then (if phase = some .owing then some .free else none) else phase

def history (id : GeneratorId) (log : List GenEvent) : Option GenPhase :=
  log.foldl (genPhase id) (some .free)

-- ---------------------------------------------------------------------------
-- The invariant
-- ---------------------------------------------------------------------------

/-- What holds while a session's call is at a step. -/
def CallInv (idOf : SessionPtr → GeneratorId) (st : CollectorState) (s : SessionPtr) : CallState → Prop
  | .idle => True
  | .found id _ => st.gen_map_mutex_ = some s ∧ idOf s = id ∧ (st.gen_map_ id).isSome = true
  | .connecting id _ =>
    st.gen_map_mutex_ = some s ∧ idOf s = id ∧ (st.gen_map_ id).isSome = true ∧ st.session id = none
  | .entering id => st.gen_map_mutex_ = some s ∧ st.session id = some s
  | .negotiating id | .updating id | .disconnecting id => st.generator_ s = some id

/-- The phase of a generator with this session. -/
def phaseOf : Option SessionPtr → GenPhase
  | none => .free
  | some s => .connected s

/-- A session points at the generator that points at it; the other way round too, except
while the session is about to be told. -/
structure GeneratorInv (idOf : SessionPtr → GeneratorId) (st : CollectorState) : Prop where
  allOrNone : ∀ id gen, st.gen_map_ id = some gen → gen.AllOrNone
  owner : ∀ id s, st.session id = some s → idOf s = id
  paired : ∀ s id, st.generator_ s = some id → st.session id = some s
  pointed : ∀ id s, st.session id = some s → st.generator_ s = some id ∨ st.call s = .entering id
  calls : ∀ s, CallInv idOf st s (st.call s)
  history : ∀ id, history id st.log = some (phaseOf (st.session id))

namespace CollectorState

variable (st : CollectorState) (s : SessionPtr) (call : CallState)

@[simp] theorem setCall_call_self : (st.setCall s call).call s = call := Function.update_self ..

theorem setCall_call_of_ne {s' : SessionPtr} (hs : s' ≠ s) : (st.setCall s call).call s' = st.call s' :=
  Function.update_of_ne hs ..

/-- One generator changes. -/
theorem session_setGen (id : GeneratorId) (gen : SandeshGenerator) (id' : GeneratorId) :
    (Function.update st.gen_map_ id (some gen) id').bind SandeshGenerator.viz_session_ =
      if id' = id then gen.viz_session_ else st.session id' := by
  by_cases hid : id' = id
  · subst hid
    simp
  · rw [Function.update_of_ne hid, if_neg hid]
    rfl

end CollectorState

section Invariant

variable {idOf : SessionPtr → GeneratorId} {st st' : CollectorState}

theorem generatorInv_init (idOf : SessionPtr → GeneratorId) : GeneratorInv idOf collectorSystem.init where
  allOrNone id gen hgen := by cases hgen
  owner id s hs := by cases hs
  paired s id hid := by cases hid
  pointed id s hs := by cases hs
  calls _ := trivial
  history _ := rfl

/-- What a session's call needs stays when others change the state: its generator, and what
it reads of the generators while it has the lock. -/
theorem CallInv.of_agree {s : SessionPtr} {call : CallState} (h : CallInv idOf st s call)
    (hgen : st'.generator_ s = st.generator_ s)
    (hlocked : st.gen_map_mutex_ = some s → st'.gen_map_mutex_ = some s ∧ ∀ id,
      ((st.gen_map_ id).isSome = true → (st'.gen_map_ id).isSome = true) ∧
      (st.session id = none → st'.session id = none) ∧
      (st.session id = some s → st'.session id = some s)) :
    CallInv idOf st' s call := by
  cases call with
  | idle => trivial
  | found id sm =>
    obtain ⟨hmutex, hid, hsome⟩ := h
    obtain ⟨hmutex', hagree⟩ := hlocked hmutex
    exact ⟨hmutex', hid, (hagree id).1 hsome⟩
  | connecting id sm =>
    obtain ⟨hmutex, hid, hsome, hfree⟩ := h
    obtain ⟨hmutex', hagree⟩ := hlocked hmutex
    exact ⟨hmutex', hid, (hagree id).1 hsome, (hagree id).2.1 hfree⟩
  | entering id =>
    obtain ⟨hmutex, hsession⟩ := h
    obtain ⟨hmutex', hagree⟩ := hlocked hmutex
    exact ⟨hmutex', (hagree id).2.2 hsession⟩
  | negotiating id => exact hgen.trans h
  | updating id => exact hgen.trans h
  | disconnecting id => exact hgen.trans h

variable (h : GeneratorInv idOf st)
include h

/-- A call goes on without changing generators. -/
theorem generatorInv_setCall {s : SessionPtr} {call : CallState} (hcall : CallInv idOf st s call)
    (hpoint : ∀ id, st.call s ≠ .entering id) : GeneratorInv idOf (st.setCall s call) where
  allOrNone := h.allOrNone
  owner := h.owner
  paired := h.paired
  pointed id s' hs' := by
    rcases h.pointed id s' hs' with hgen | hentering
    · exact Or.inl hgen
    · have hs : s' ≠ s := by
        rintro rfl
        exact hpoint id hentering
      refine Or.inr ?_
      rw [st.setCall_call_of_ne s call hs]
      exact hentering
  calls s' := by
    by_cases hs : s' = s
    · subst hs
      rw [st.setCall_call_self]
      exact hcall
    · rw [st.setCall_call_of_ne s call hs]
      exact h.calls s'
  history := h.history

/-- Taking the lock. -/
theorem generatorInv_lock (hfree : st.gen_map_mutex_ = none) (s : SessionPtr) :
    GeneratorInv idOf (st.lock s) where
  allOrNone := h.allOrNone
  owner := h.owner
  paired := h.paired
  pointed := h.pointed
  calls s' := (h.calls s').of_agree rfl (by rw [hfree]; exact nofun)
  history := h.history

/-- Giving the lock back, with the last step that needs it. -/
theorem generatorInv_release {s : SessionPtr} (hheld : st.gen_map_mutex_ = some s) {call : CallState}
    (hcall : CallInv idOf st.release s call)
    (hpoint : ∀ id, st.call s = .entering id → st.generator_ s = some id) :
    GeneratorInv idOf (st.release.setCall s call) where
  allOrNone := h.allOrNone
  owner := h.owner
  paired := h.paired
  pointed id s' hs' := by
    rcases h.pointed id s' hs' with hgen | hentering
    · exact Or.inl hgen
    · by_cases hs : s' = s
      · subst hs
        exact Or.inl (hpoint id hentering)
      · refine Or.inr ?_
        rw [st.release.setCall_call_of_ne s call hs]
        exact hentering
  calls s' := by
    by_cases hs : s' = s
    · subst hs
      rw [st.release.setCall_call_self]
      exact hcall
    · rw [st.release.setCall_call_of_ne s call hs]
      refine (h.calls s').of_agree rfl fun hmutex => ?_
      exact absurd (Option.some.inj (hmutex.symm.trans hheld)) hs
  history := h.history

/-- A session whose generator is free is at no other generator. -/
theorem GeneratorInv.generator_eq_none {s : SessionPtr} {id : GeneratorId} (hid : idOf s = id)
    (hfree : st.session id = none) : st.generator_ s = none := by
  cases hold : st.generator_ s with
  | none => rfl
  | some id' =>
    have hs := h.paired s id' hold
    rw [← h.owner id' s hs, hid, hfree] at hs
    cases hs

theorem GeneratorInv.allOrNone_update {gen : SandeshGenerator} (hgen : gen.AllOrNone)
    (id id' : GeneratorId) (gen' : SandeshGenerator)
    (hgen' : Function.update st.gen_map_ id (some gen) id' = some gen') : gen'.AllOrNone := by
  by_cases hne : id' = id
  · subst hne
    rw [Function.update_self] at hgen'
    exact Option.some.inj hgen' ▸ hgen
  · rw [Function.update_of_ne hne] at hgen'
    exact h.allOrNone id' gen' hgen'

/-- The history of one generator goes on with events of its own. -/
theorem GeneratorInv.history_append {id : GeneratorId} {events : List GenEvent}
    {session : Option SessionPtr}
    (hself : events.foldl (genPhase id) (some (phaseOf (st.session id))) = some (phaseOf session))
    (hother : ∀ id', id' ≠ id → ∀ phase, events.foldl (genPhase id') phase = phase)
    (id' : GeneratorId) :
    Collector.history id' (st.log ++ events) =
      some (phaseOf (if id' = id then session else st.session id')) := by
  rw [Collector.history, List.foldl_append, ← Collector.history, h.history]
  by_cases hne : id' = id
  · rw [if_pos hne, hne, hself]
  · rw [if_neg hne, hother id' hne]

/-- A free generator is connected; whether the session is told yet is `generator`. -/
theorem generatorInv_connect {s : SessionPtr} {id : GeneratorId} (hheld : st.gen_map_mutex_ = some s)
    (hid : idOf s = id) (hfree : st.session id = none) (gen : SandeshGenerator)
    (hgen : gen.AllOrNone) (hsession : gen.viz_session_ = some s) (generator : Option GeneratorId)
    (htold : generator = none ∨ generator = some id) :
    GeneratorInv idOf { st with
      gen_map_ := Function.update st.gen_map_ id (some gen)
      generator_ := Function.update st.generator_ s generator
      call := Function.update st.call s (.entering id)
      log := st.log ++ [.connected id s] } := by
  have hmap := st.session_setGen id gen
  rw [hsession] at hmap
  refine ⟨fun id' gen' hgen' => ?_, fun id' s' hs' => ?_, fun s' id' hid' => ?_,
    fun id' s' hs' => ?_, fun s' => ?_, fun id' => ?_⟩
  · exact h.allOrNone_update hgen id id' gen' hgen'
  · have hold := (hmap id').symm.trans hs'
    split at hold
    · rename_i hne
      rw [← Option.some.inj hold, hne]
      exact hid
    · exact h.owner id' s' hold
  · refine (hmap id').trans ?_
    -- the session is told of this generator or of none; the others have theirs
    by_cases hs : s' = s
    · subst hs
      simp only [Function.update_self] at hid'
      rcases htold with htold | htold
      · rw [htold] at hid'
        cases hid'
      · rw [htold] at hid'
        rw [if_pos (Option.some.inj hid').symm]
    · simp only [Function.update_of_ne hs] at hid'
      have hpaired := h.paired s' id' hid'
      rw [if_neg]
      · exact hpaired
      · rintro rfl
        rw [hfree] at hpaired
        cases hpaired
  · have hold := (hmap id').symm.trans hs'
    split at hold
    · rename_i hne
      obtain rfl := Option.some.inj hold
      refine Or.inr ?_
      simp only [Function.update_self, hne]
    · rename_i hne
      have hother : s' ≠ s := by
        rintro rfl
        exact hne ((h.owner id' _ hold).symm.trans hid)
      simp only [Function.update_of_ne hother]
      exact h.pointed id' s' hold
  · -- the call of the session goes on to tell it; the mutex is still its own
    by_cases hs : s' = s
    · subst hs
      simp only [Function.update_self]
      exact ⟨hheld, (hmap id).trans (if_pos rfl)⟩
    · simp only [Function.update_of_ne hs]
      refine (h.calls s').of_agree (Function.update_of_ne hs ..) fun hmutex => ?_
      exact absurd (Option.some.inj (hmutex.symm.trans hheld)) hs
  · -- in the record the generator has been connected, and was free before
    refine Eq.trans ?_ (congrArg (fun o => some (phaseOf o)) (hmap id').symm)
    refine h.history_append ?_ (fun id₁ hne phase => ?_) id'
    · simp [genPhase, hfree, phaseOf]
    · simp [genPhase, Ne.symm hne]

/-- The session is told its generator. -/
theorem generatorInv_setGenerator {s : SessionPtr} {id : GeneratorId}
    (hcall : st.call s = .entering id) (hsession : st.session id = some s) :
    GeneratorInv idOf (st.setGenerator s (some id)) where
  allOrNone := h.allOrNone
  owner := h.owner
  paired s' id' hid' := by
    by_cases hs : s' = s
    · subst hs
      simp only [CollectorState.setGenerator, Function.update_self, Option.some.injEq] at hid'
      exact hid' ▸ hsession
    · simp only [CollectorState.setGenerator, Function.update_of_ne hs] at hid'
      exact h.paired s' id' hid'
  pointed id' s' hs' := by
    by_cases hs : s' = s
    · subst hs
      refine Or.inl ?_
      rw [← h.owner id' s' hs', h.owner id s' hsession]
      exact Function.update_self ..
    · refine (h.pointed id' s' hs').imp_left fun hgen => ?_
      rw [← hgen]
      exact Function.update_of_ne hs ..
  calls s' := by
    by_cases hs : s' = s
    · subst hs
      have hcall' := h.calls s'
      rw [hcall] at hcall'
      rw [show (st.setGenerator s' (some id)).call s' = .entering id from hcall]
      exact hcall'
    · exact (h.calls s').of_agree (Function.update_of_ne hs ..) fun hmutex =>
        ⟨hmutex, fun _ => ⟨fun hsome => hsome, fun hnone => hnone, fun hsome => hsome⟩⟩
  history := h.history

/-- A generator loses its session. -/
theorem generatorInv_disconnect {s : SessionPtr} {id : GeneratorId} (hsession : st.session id = some s)
    (gen : SandeshGenerator) (hgen : gen.AllOrNone) (hlost : gen.viz_session_ = none) :
    GeneratorInv idOf { st with
      gen_map_ := Function.update st.gen_map_ id (some gen)
      generator_ := Function.update st.generator_ s none
      call := Function.update st.call s .idle
      log := st.log ++ [.lost id s, .DeleteUVEs id] } := by
  have hmap := st.session_setGen id gen
  rw [hlost] at hmap
  refine ⟨fun id' gen' hgen' => ?_, fun id' s' hs' => ?_, fun s' id' hid' => ?_,
    fun id' s' hs' => ?_, fun s' => ?_, fun id' => ?_⟩
  · exact h.allOrNone_update hgen id id' gen' hgen'
  · have hold := (hmap id').symm.trans hs'
    split at hold
    · cases hold
    · exact h.owner id' s' hold
  · refine (hmap id').trans ?_
    -- the session has no generator any more; no other one had this
    by_cases hs : s' = s
    · subst hs
      simp only [Function.update_self] at hid'
      cases hid'
    · simp only [Function.update_of_ne hs] at hid'
      have hpaired := h.paired s' id' hid'
      rw [if_neg]
      · exact hpaired
      · rintro rfl
        exact hs (Option.some.inj (hpaired.symm.trans hsession))
  · have hold := (hmap id').symm.trans hs'
    split at hold
    · cases hold
    · rename_i hne
      have hother : s' ≠ s := by
        rintro rfl
        exact hne ((h.owner id' _ hold).symm.trans (h.owner id _ hsession))
      simp only [Function.update_of_ne hother]
      exact h.pointed id' s' hold
  · -- the other calls are about other generators, or see this one free
    by_cases hs : s' = s
    · subst hs
      simp only [Function.update_self]
      trivial
    · simp only [Function.update_of_ne hs]
      refine (h.calls s').of_agree (Function.update_of_ne hs ..) fun hmutex => ⟨hmutex, fun id' => ?_⟩
      refine ⟨fun hsome => ?_, fun hnone => (hmap id').trans ?_, fun hother => (hmap id').trans ?_⟩
      · by_cases hne : id' = id
        · simp [hne]
        · simp only [Function.update_of_ne hne]
          exact hsome
      · rw [hnone, ite_self]
      · rw [if_neg]
        · exact hother
        · rintro rfl
          exact hs (Option.some.inj (hother.symm.trans hsession))
  · -- in the record the generator has been lost, and was connected before
    refine Eq.trans ?_ (congrArg (fun o => some (phaseOf o)) (hmap id').symm)
    refine h.history_append ?_ (fun id₁ hne phase => ?_) id'
    · simp [genPhase, hsession, phaseOf]
    · simp [genPhase, Ne.symm hne]

end Invariant

-- ---------------------------------------------------------------------------
-- Steps
-- ---------------------------------------------------------------------------

section Steps

variable {idOf : SessionPtr → GeneratorId} {st st' : CollectorState} (h : GeneratorInv idOf st)
include h

/-- The session of a generator is set with its state machine and timer. -/
theorem GeneratorInv.connected {id : GeneratorId} {s : SessionPtr} (hsession : st.session id = some s) :
    ∃ gen, st.gen_map_ id = some gen ∧ gen.viz_session_ = some s ∧ gen.state_machine_.isSome = true ∧
      gen.sm_defer_timer_ = true := by
  obtain ⟨gen, hgen, hs⟩ := Option.bind_eq_some_iff.mp hsession
  obtain ⟨hmachine, htimer⟩ := h.allOrNone id gen hgen
  rw [hs] at hmachine htimer
  exact ⟨gen, hgen, hs, hmachine, htimer⟩

/-- The next step of a call is possible, and keeps the invariant. -/
theorem generatorInv_advance (s : SessionPtr) (hcall : st.call s ≠ .idle) (retc : Bool) :
    ∃ st', st.advance s retc = some st' ∧ GeneratorInv idOf st' := by
  have hinv := h.calls s
  cases hstate : st.call s with
  | idle => exact absurd hstate hcall
  | found id sm =>
    rw [hstate] at hinv
    obtain ⟨hheld, hid, hgen⟩ := hinv
    -- the generator may have a session by now, and the call gives up
    cases hsession : st.session id with
    | none =>
      refine ⟨st.setCall s (.connecting id sm), ?_, generatorInv_setCall h ⟨hheld, hid, hgen, hsession⟩
        (by simp [hstate])⟩
      simp only [CollectorState.advance, hstate, hsession]
    | some s' =>
      refine ⟨st.release.setCall s .idle, ?_, generatorInv_release h hheld trivial (by simp [hstate])⟩
      simp only [CollectorState.advance, hstate, hsession]
  | connecting id sm =>
    rw [hstate] at hinv
    obtain ⟨hheld, hid, hgen, hfree⟩ := hinv
    obtain ⟨gen, hgen⟩ := Option.isSome_iff_exists.mp hgen
    -- the generator is free, so it has no timer to wait for
    have hsession : gen.viz_session_ = none := by
      rw [CollectorState.session, hgen] at hfree
      exact hfree
    have htimer : gen.sm_defer_timer_ = false := by
      rw [(h.allOrNone id gen hgen).2, hsession]
      rfl
    refine ⟨_, ?_, generatorInv_connect h hheld hid hfree
      ⟨some s, some sm, true, false, gen.connects + 1, gen.resets⟩ ⟨rfl, rfl⟩ rfl (some id)
      (Or.inr rfl)⟩
    simp only [CollectorState.advance, hstate, hgen, SandeshGenerator.ConnectSession, htimer]
    rfl
  | entering id =>
    rw [hstate] at hinv
    obtain ⟨hheld, hsession⟩ := hinv
    -- the session is told of its generator, and the mutex is released
    have htold := generatorInv_setGenerator h hstate hsession
    have hself : (st.setGenerator s (some id)).generator_ s = some id := Function.update_self ..
    refine ⟨(st.setGenerator s (some id)).release.setCall s (.negotiating id), ?_,
      generatorInv_release htold hheld hself fun id' hentering => ?_⟩
    · simp only [CollectorState.advance, hstate]
    · obtain rfl := CallState.entering.inj (hstate.symm.trans hentering)
      exact hself
  | negotiating id =>
    rw [hstate] at hinv
    cases retc with
    | false =>
      refine ⟨st.setCall s (.disconnecting id), ?_, generatorInv_setCall h hinv (by simp [hstate])⟩
      simp only [CollectorState.advance, hstate]
      rfl
    | true =>
      -- the generator still has the session, and so its state machine
      obtain ⟨gen, hgen, -, hmachine, -⟩ := h.connected (h.paired s id hinv)
      obtain ⟨sm, hsm⟩ := Option.isSome_iff_exists.mp hmachine
      refine ⟨st.setCall s .idle, ?_, generatorInv_setCall h trivial (by simp [hstate])⟩
      simp only [CollectorState.advance, hstate, hgen, Option.bind_some, hsm, if_true, Option.map_some]
  | updating id =>
    rw [hstate] at hinv
    refine ⟨st.setCall s (if retc then .idle else .disconnecting id), ?_,
      generatorInv_setCall h ?_ (by simp [hstate])⟩
    · simp only [CollectorState.advance, hstate]
    · cases retc
      · exact hinv
      · trivial
  | disconnecting id =>
    rw [hstate] at hinv
    have hsession := h.paired s id hinv
    -- the generator lets go of this session, which is still its own
    obtain ⟨gen, hgen, hs, hmachine, htimer⟩ := h.connected hsession
    refine ⟨_, ?_, generatorInv_disconnect h hsession
      ⟨none, none, false, true, gen.connects, gen.resets + 1⟩ ⟨rfl, rfl⟩ rfl⟩
    simp only [CollectorState.advance, hstate, CollectorState.genDisconnectSession, hgen, hs, if_true,
      SandeshGenerator.disconnect, hmachine, htimer, Bool.and_self, Option.map_some]
    rfl

/-- A control message of an idle session keeps the invariant. -/
theorem generatorInv_ctrlMsg {s : SessionPtr} {sm : StateMachinePtr} {msg : CtrlMsg}
    (hidle : st.call s = .idle) (hid : msg.id = idOf s)
    (hstep : st.ReceiveSandeshCtrlMsg s sm msg = some st') : GeneratorInv idOf st' := by
  have hpoint : ∀ id, st.call s ≠ .entering id := by simp [hidle]
  unfold CollectorState.ReceiveSandeshCtrlMsg at hstep
  split at hstep
  · exact Option.some.inj hstep ▸ h
  · split at hstep
    · cases hstep
    · rename_i hlocked
      have hfree : st.gen_map_mutex_ = none := Option.not_isSome_iff_eq_none.mp hlocked
      have hlock := generatorInv_lock h hfree s
      split at hstep
      · rename_i hnew
        obtain rfl := Option.some.inj hstep
        have hsession : (st.lock s).session msg.id = none := by
          rw [CollectorState.session, CollectorState.lock, hnew]
          rfl
        have hnone : Function.update st.generator_ s none = st.generator_ := by
          rw [← h.generator_eq_none hid.symm hsession]
          exact Function.update_eq_self ..
        have hinv := generatorInv_connect hlock rfl hid.symm hsession (.new s sm) ⟨rfl, rfl⟩ rfl none
          (Or.inl rfl)
        rw [show Function.update (st.lock s).generator_ s none = st.generator_ from hnone] at hinv
        exact hinv
      · rename_i gen hgen
        obtain rfl := Option.some.inj hstep
        refine generatorInv_setCall hlock ⟨rfl, hid.symm, ?_⟩ hpoint
        rw [CollectorState.lock, hgen]
        rfl

theorem generatorInv_step (a : CollectorEvent) (hok : SendsOneId idOf a)
    (hstep : st.step a = some st') : GeneratorInv idOf st' := by
  cases a with
  | ReceiveSandeshCtrlMsg s sm msg =>
    rw [CollectorState.step] at hstep
    split at hstep
    · rename_i hidle
      exact generatorInv_ctrlMsg h hidle hok hstep
    · cases hstep
  | ReceiveResourceUpdate s rsc =>
    rw [CollectorState.step] at hstep
    split at hstep
    · rename_i hidle
      have hpoint : ∀ id, st.call s ≠ .entering id := by simp [hidle]
      obtain rfl := Option.some.inj hstep
      unfold CollectorState.ReceiveResourceUpdate
      split
      · exact h
      · rename_i id hid
        split
        · exact generatorInv_setCall h hid hpoint
        · exact generatorInv_setCall h hid hpoint
    · cases hstep
  | DisconnectSession s =>
    rw [CollectorState.step] at hstep
    split at hstep
    · rename_i hidle
      obtain ⟨id, hid, rfl⟩ := Option.map_eq_some_iff.mp hstep
      exact generatorInv_setCall h hid (by simp [hidle])
    · cases hstep
  | advance s retc =>
    by_cases hidle : st.call s = .idle
    · simp only [CollectorState.step, CollectorState.advance, hidle] at hstep
      cases hstep
    · obtain ⟨st₁, hst₁, hinv⟩ := generatorInv_advance h s hidle retc
      obtain rfl := Option.some.inj (hst₁.symm.trans hstep)
      exact hinv

end Steps

-- ---------------------------------------------------------------------------
-- Runs
-- ---------------------------------------------------------------------------

/-- In every state of every run a generator points at a session just when the session
points at it; a session in the middle of its own section under `gen_map_mutex_` may not be
told yet, but points at no other generator. Session, state machine and timer of a
generator are set together. The next step of every call is possible: no assertion fails,
and `DisconnectSession` finds its own session. The UVEs of a generator were deleted once
each time it lost its session, before it was connected again. -/
theorem sessions_paired (idOf : SessionPtr → GeneratorId) {st : CollectorState}
    (h : collectorSystem.ReachableVia (fun _ a => SendsOneId idOf a) st) :
    (∀ id s, st.gen_map_mutex_ ≠ some s → (st.session id = some s ↔ st.generator_ s = some id)) ∧
    (∀ id s, st.generator_ s = some id → st.session id = some s) ∧
    (∀ id gen, st.gen_map_ id = some gen → gen.AllOrNone) ∧
    (∀ s, st.call s ≠ .idle → ∀ retc, ∃ st', st.step (.advance s retc) = some st') ∧
    (∀ s id, st.call s = .disconnecting id → st.session id = some s) ∧
    ∀ id, history id st.log = some (phaseOf (st.session id)) := by
  have hinv : GeneratorInv idOf st := h.invariant (generatorInv_init idOf)
    fun st a st' hinv hok hstep => generatorInv_step hinv a hok hstep
  refine ⟨fun id s hmutex => ⟨fun hs => ?_, hinv.paired s id⟩, fun id s => hinv.paired s id,
    hinv.allOrNone, fun s hcall retc => ?_, fun s id hcall => ?_, hinv.history⟩
  · refine (hinv.pointed id s hs).resolve_right fun hentering => hmutex ?_
    have hcall := hinv.calls s
    rw [hentering] at hcall
    exact hcall.1
  · obtain ⟨st', hst', -⟩ := generatorInv_advance hinv s hcall retc
    exact ⟨st', hst'⟩
  · have hdisconnecting := hinv.calls s
    rw [hcall] at hdisconnecting
    exact hinv.paired s id hdisconnecting

section Sample

def sampleMsg : CtrlMsg := ⟨"host1", "Collector", "0", "Analytics", true⟩

/-- Two sessions claim one generator, the first is disconnected, the second comes back. -/
def sampleCollectorEvents : List CollectorEvent :=
  [.ReceiveSandeshCtrlMsg 1 1 sampleMsg, .advance 1 true, .advance 1 true,
    .ReceiveSandeshCtrlMsg 2 2 sampleMsg, .advance 2 true,
    .DisconnectSession 1, .advance 1 true,
    .ReceiveSandeshCtrlMsg 2 2 sampleMsg, .advance 2 true, .advance 2 true, .advance 2 true]

def sampleCollector : CollectorState :=
  (collectorSystem.run sampleCollectorEvents).getD collectorSystem.init

theorem sessions_paired_sample :
    sampleCollector.session sampleMsg.id = some 2 ∧
      history sampleMsg.id sampleCollector.log = some (.connected 2) := by
  have hrun : collectorSystem.run sampleCollectorEvents = some sampleCollector := rfl
  have hpaired := sessions_paired (fun _ => sampleMsg.id)
    (System.reachableVia_of_run hrun fun a ha s s' _ => by
      cases a with
      | ReceiveSandeshCtrlMsg s sm msg =>
        have hmsg : msg = sampleMsg := by
          simp only [sampleCollectorEvents, List.mem_cons, CollectorEvent.ReceiveSandeshCtrlMsg.injEq,
            reduceCtorEq, false_or, List.not_mem_nil, or_false] at ha
          rcases ha with ⟨-, -, rfl⟩ | ⟨-, -, rfl⟩ | ⟨-, -, rfl⟩ <;> rfl
        rw [hmsg]
        rfl
      | _ => trivial)
  have hsession : sampleCollector.session sampleMsg.id = some 2 := (hpaired.1 _ 2 (by decide)).mpr rfl
  exact ⟨hsession, by rw [hpaired.2.2.2.2.2, hsession]; rfl⟩

end Sample

end TfAnalytics.Collector
