import Mathlib.Data.List.Perm.Basic
import TfAnalytics.Lib.Transition
import TfAnalytics.QueryEngine.Pipeline
import TfAnalytics.QueryEngine.StatTags
import TfAnalytics.QueryEngine.WhereQuery

/-!
# Query engine — fetching the rows of a table query

`DbQueryUnit` (db_query.cc) fetches its rows through a pipeline of instances. `QueryExec`
appends the result of the step before, takes the next row from the shared counter and asks the
database for it; an instance that finds no row, or finds that a fetch has failed, is done. When
all are, `QueryMerge` concatenates their results and `WPCompleteCb` sorts them.

* `rowFetch`: the instances and the completions, in any interleaving;
* `fetchInv_step`: the invariant of every run, step by step;
* `row_fetch_sound`: what is requested, and what is reported in the end.

`QueryExec` looks at the error flag before it touches the counter, and anything can happen in
between. The work pipeline library calls it again after each finished step; `ret_code` is false
when a step could not be started.
-/

namespace TfAnalytics.QueryEngine

open TfAnalytics.Lib TfAnalytics.Collector

namespace RowFetch

variable {κ γ ν : Type}

-- ---------------------------------------------------------------------------
-- The pipeline
-- ---------------------------------------------------------------------------

/-- A row key: its first element and the others. -/
structure RowKey (κ : Type) where
  T2 : Nat
  suffix : κ

structure Input (κ γ : Type) where
  cf_name : String
  cr : γ
  where_vec : List WhereIndexInfo
  keys : List (RowKey κ)

/-- `total_rows`, a `uint32_t`. -/
def Input.total_rows (inp : Input κ γ) : Nat := inp.keys.length % UINT32

/-- The arguments of `Db_GetRowAsync`. -/
structure GetRow (κ γ : Type) where
  cfname : String
  rowkey : RowKey κ
  cr : γ
  where_vec : List WhereIndexInfo

/-- `DbQueryUnit::PipelineCb`: `T2:` goes in front of the values of the row's own copy of the
predicates. -/
def getRow (inp : Input κ γ) (rowkey : RowKey κ) : GetRow κ γ where
  cfname := inp.cf_name
  rowkey := rowkey
  cr := inp.cr
  where_vec := inp.where_vec.map fun where_info =>
    { where_info with value := PipelineCb rowkey.T2 where_info.value }

/-- Where the pipeline is with an instance: `QueryExec` is to be called, it is about to take a row,
the row is being fetched, it has returned NULL. -/
inductive Phase where
  | called
  | claiming
  | waiting (row : Nat)
  | stopped
  deriving DecidableEq

/-- An instance with the results of its finished steps and its `Stage0Out`. -/
structure Instance (ν : Type) where
  phase : Phase
  exts : List (WhereResultT ν)
  query_result : WhereResultT ν
  current_row : Nat

inductive QueryStatus where
  | QUERY_SUCCESS
  | QUERY_FAILURE
  deriving DecidableEq

/-- The state, with a record of the requests, of the results that came back and of the rows that
could not be fetched. -/
structure FetchState (κ γ ν : Type) where
  row_count : Nat
  query_fetch_error : Bool
  ret_code : Bool
  insts : List (Instance ν)
  requests : List (Nat × GetRow κ γ)
  answers : List (Nat × WhereResultT ν)
  failures : List Nat
  completed : Option (QueryStatus × WhereResultT ν)

inductive FetchAction (ν : Type) where
  | enter (i : Nat)
  | claim (i : Nat)
  | cb (i : Nat) (result : Option (WhereResultT ν))
  | refuse (i : Nat)
  | complete

/-- The begin of `QueryExec`. -/
def enter (query_fetch_error : Bool) (inst : Instance ν) : Instance ν :=
  if query_fetch_error then { inst with phase := .stopped }
  else
    { inst with
      phase := .claiming
      query_result := inst.query_result ++ inst.exts.getLast?.getD [] }

/-- Its end: `row_count.fetch_and_increment()` has returned `current_row`. -/
def claim (inp : Input κ γ) (current_row : Nat) (inst : Instance ν) :
    Option (Instance ν × List (Nat × GetRow κ γ)) :=
  let inst := { inst with current_row := current_row }
  if current_row < inp.total_rows then
    (inp.keys[current_row]?).map fun rowkey =>
      ({ inst with phase := .waiting current_row }, [(current_row, getRow inp rowkey)])
  else some ({ inst with phase := .stopped }, [])

/-- `QueryMerge`. -/
def QueryMerge (insts : List (Instance ν)) : WhereResultT ν := insts.flatMap (·.query_result)

/-- `WPCompleteCb`. -/
def WPCompleteCb [LinearOrder ν] (query_fetch_error ret_code : Bool) (query_result : WhereResultT ν) :
    QueryStatus × WhereResultT ν :=
  (if ret_code && !query_fetch_error then .QUERY_SUCCESS else .QUERY_FAILURE, sortUnits query_result)

/-- One step of a run. A failed fetch answers with no result. -/
def step [LinearOrder ν] (inp : Input κ γ) (s : FetchState κ γ ν) :
    FetchAction ν → Option (FetchState κ γ ν)
  | .enter i => do
    let inst ← s.insts[i]?
    if inst.phase = .called then
      some { s with insts := s.insts.set i (enter s.query_fetch_error inst) }
    else none
  | .claim i => do
    let inst ← s.insts[i]?
    if inst.phase = .claiming then
      let (inst, requests) ← claim inp s.row_count inst
      some { s with
        row_count := (s.row_count + 1) % UINT32
        insts := s.insts.set i inst
        requests := s.requests ++ requests }
    else none
  | .cb i result => do
    let inst ← s.insts[i]?
    match inst.phase with
    | .waiting row =>
      let inst := { inst with phase := .called, exts := inst.exts ++ [result.getD []] }
      match result with
      | some units =>
        some { s with insts := s.insts.set i inst, answers := s.answers ++ [(row, units)] }
      | none =>
        some { s with
          query_fetch_error := true
          insts := s.insts.set i inst
          failures := s.failures ++ [row] }
    | _ => none
  | .refuse i => do
    let inst ← s.insts[i]?
    match inst.phase with
    | .waiting row =>
      some { s with
        ret_code := false
        insts := s.insts.set i { inst with phase := .stopped }
        failures := s.failures ++ [row] }
    | _ => none
  | .complete =>
    if s.completed = none ∧ s.insts.all (·.phase = .stopped) = true then
      some { s with completed := some (WPCompleteCb s.query_fetch_error s.ret_code (QueryMerge s.insts)) }
    else none

/-- The pipeline that `process_query` starts, with so many instances. -/
def rowFetch [LinearOrder ν] (inp : Input κ γ) (tasks : Nat) :
    System (FetchState κ γ ν) (FetchAction ν) where
  init :=
    { row_count := 0
      query_fetch_error := false
      ret_code := true
      insts := List.replicate tasks { phase := .called, exts := [], query_result := [], current_row := 0 }
      requests := []
      answers := []
      failures := []
      completed := none }
  step := step inp

-- ---------------------------------------------------------------------------
-- The instances, in any order
-- ---------------------------------------------------------------------------

/-- One element of a list, replaced. -/
theorem set_perm {α : Type} {l : List α} {i : Nat} {a : α} (h : l[i]? = some a) :
    ∃ rest, l.Perm (a :: rest) ∧ ∀ b, (l.set i b).Perm (b :: rest) := by
  obtain ⟨hi, rfl⟩ := List.getElem?_eq_some_iff.mp h
  exact ⟨l.eraseIdx i, (List.getElem_cons_eraseIdx_perm hi).symm,
    fun b => List.set_perm_cons_eraseIdx hi b⟩

def Instance.isStopped (inst : Instance ν) : Bool := inst.phase = .stopped

def Instance.waitingRow (inst : Instance ν) : Option Nat :=
  match inst.phase with
  | .waiting row => some row
  | _ => none

/-- The result of an instance, with that of the last step if `QueryExec` has still to append it. -/
def Instance.held (inst : Instance ν) : WhereResultT ν :=
  inst.query_result ++ if inst.phase = .called then inst.exts.getLast?.getD [] else []

theorem held_of_ne {inst : Instance ν} (h : inst.phase ≠ .called) : inst.held = inst.query_result := by
  rw [Instance.held, if_neg h, List.append_nil]

/-- How many instances are done. -/
def stopped (insts : List (Instance ν)) : Nat := insts.countP Instance.isStopped

/-- The rows that are being fetched. -/
def waitingRows (insts : List (Instance ν)) : List Nat := insts.filterMap Instance.waitingRow

/-- All results that have come back. -/
def heldResults (insts : List (Instance ν)) : WhereResultT ν := insts.flatMap Instance.held

/-- An instance that goes on to be done or not. -/
theorem stopped_set {insts : List (Instance ν)} {i : Nat} {inst inst' : Instance ν}
    (h : insts[i]? = some inst) (hphase : inst.phase ≠ .stopped) :
    stopped (insts.set i inst') = stopped insts + if inst'.phase = .stopped then 1 else 0 := by
  obtain ⟨rest, hperm, hset⟩ := set_perm h
  rw [stopped, stopped, (hset inst').countP_eq, hperm.countP_eq, List.countP_cons, List.countP_cons]
  simp [Instance.isStopped, hphase]

theorem stopped_lt {insts : List (Instance ν)} {i : Nat} {inst : Instance ν}
    (h : insts[i]? = some inst) (hphase : inst.phase ≠ .stopped) : stopped insts < insts.length := by
  obtain ⟨rest, hperm, -⟩ := set_perm h
  have hrunning : ¬ inst.isStopped = true := by simp [Instance.isStopped, hphase]
  rw [stopped, hperm.countP_eq, hperm.length_eq, List.countP_cons_of_neg hrunning, List.length_cons]
  have hle := List.countP_le_length (p := Instance.isStopped) (l := rest)
  omega

theorem mem_set {α : Type} {l : List α} {i : Nat} {a b x : α} (h : l[i]? = some a)
    (hx : x ∈ l.set i b) : x = b ∨ x ∈ l := by
  obtain ⟨rest, hperm, hset⟩ := set_perm h
  rcases List.mem_cons.mp ((hset b).mem_iff.mp hx) with hx | hx
  · exact .inl hx
  · exact .inr (hperm.mem_iff.mpr (List.mem_cons_of_mem _ hx))

-- ---------------------------------------------------------------------------
-- The invariant
-- ---------------------------------------------------------------------------

variable {inp : Input κ γ} {s s' : FetchState κ γ ν}

/-- After `claims` accesses to the counter. -/
structure Claimed (inp : Input κ γ) (s : FetchState κ γ ν) (claims : Nat) : Prop where
  row_count : s.row_count = claims % UINT32
  bound : claims ≤ inp.keys.length + stopped s.insts
  rows : s.requests.map Prod.fst = List.range (min claims inp.keys.length)
  /-- Without a failure an instance is done when there is no row left. -/
  done : s.failures = [] → ∀ inst ∈ s.insts, inst.phase = .stopped → inp.keys.length ≤ claims

/-- Without a failure, every request is open or answered, and every answer is held. -/
structure Accounted (s : FetchState κ γ ν) : Prop where
  requests : (s.requests.map Prod.fst).Perm (s.answers.map Prod.fst ++ waitingRows s.insts)
  results : (heldResults s.insts).Perm (s.answers.flatMap Prod.snd)

/-- The open requests and the held results, with one instance set apart. -/
theorem parts_set {insts : List (Instance ν)} {i : Nat} {inst : Instance ν}
    (h : insts[i]? = some inst) :
    ∃ rows results, (waitingRows insts).Perm (inst.waitingRow.toList ++ rows) ∧
      (heldResults insts).Perm (inst.held ++ results) ∧
      ∀ inst', (waitingRows (insts.set i inst')).Perm (inst'.waitingRow.toList ++ rows) ∧
        (heldResults (insts.set i inst')).Perm (inst'.held ++ results) := by
  obtain ⟨rest, hperm, hset⟩ := set_perm h
  have hrows : ∀ inst : Instance ν,
      waitingRows (inst :: rest) = inst.waitingRow.toList ++ waitingRows rest := by
    intro inst
    rw [waitingRows, List.filterMap_cons]
    cases inst.waitingRow <;> rfl
  refine ⟨waitingRows rest, heldResults rest, ?_, ?_, fun inst' => ⟨?_, ?_⟩⟩
  · rw [← hrows]
    exact hperm.filterMap _
  · exact hperm.flatMap_right _
  · rw [← hrows]
    exact (hset inst').filterMap _
  · exact (hset inst').flatMap_right _

/-- An instance changes that neither waits nor gives up a result. -/
theorem Accounted.set (h : Accounted s) {i : Nat} {inst inst' : Instance ν}
    (hinst : s.insts[i]? = some inst) (hrow : inst'.waitingRow = inst.waitingRow)
    (hheld : inst'.held = inst.held) : Accounted { s with insts := s.insts.set i inst' } := by
  obtain ⟨rows, results, hrows, hresults, hset⟩ := parts_set hinst
  obtain ⟨hrows', hresults'⟩ := hset inst'
  rw [hrow] at hrows'
  rw [hheld] at hresults'
  refine ⟨h.requests.trans ?_, ?_⟩
  · exact List.Perm.append_left _ (hrows.trans hrows'.symm)
  · exact hresults'.trans (hresults.symm.trans h.results)

/-- The counter stays, and an instance that was running is done or not. -/
theorem Claimed.set {claims i : Nat} (h : Claimed inp s claims) {inst inst' : Instance ν}
    (hinst : s.insts[i]? = some inst) (hphase : inst.phase ≠ .stopped)
    (hdone : s.failures = [] → inst'.phase = .stopped → inp.keys.length ≤ claims) :
    Claimed inp { s with insts := s.insts.set i inst' } claims := by
  refine ⟨h.row_count, ?_, h.rows, fun hfailures x hx hstopped => ?_⟩
  · show claims ≤ inp.keys.length + stopped (s.insts.set i inst')
    rw [stopped_set hinst hphase]
    have hbound := h.bound
    omega
  · rcases mem_set hinst hx with rfl | hx
    · exact hdone hfailures hstopped
    · exact h.done hfailures x hx hstopped

variable [LinearOrder ν]

structure FetchInv (inp : Input κ γ) (tasks : Nat) (s : FetchState κ γ ν) : Prop where
  claimed : ∃ claims, Claimed inp s claims
  tasks : s.insts.length = tasks
  calls : ∀ r ∈ s.requests, ∃ rowkey, inp.keys[r.1]? = some rowkey ∧ r.2 = getRow inp rowkey
  flags : s.failures = [] ↔ s.query_fetch_error = false ∧ s.ret_code = true
  accounted : s.failures = [] → Accounted s
  completed : s.completed = none ∨ (∀ inst ∈ s.insts, inst.phase = .stopped) ∧
    s.completed = some (WPCompleteCb s.query_fetch_error s.ret_code (QueryMerge s.insts))

/-- An instance that is not done is still running. -/
theorem FetchInv.running {tasks : Nat} (h : FetchInv inp tasks s) {i : Nat} {inst : Instance ν}
    (hinst : s.insts[i]? = some inst) (hphase : inst.phase ≠ .stopped) : s.completed = none := by
  rcases h.completed with hnone | ⟨hall, -⟩
  · exact hnone
  · exact absurd (hall inst (List.mem_of_getElem? hinst)) hphase

theorem fetchInv_init (inp : Input κ γ) (tasks : Nat) :
    FetchInv inp tasks (rowFetch (ν := ν) inp tasks).init := by
  have hphase : ∀ inst ∈ (rowFetch (ν := ν) inp tasks).init.insts,
      inst = { phase := .called, exts := [], query_result := [], current_row := 0 } :=
    fun inst hinst => List.eq_of_mem_replicate hinst
  refine ⟨⟨0, rfl, Nat.zero_le _, rfl, fun _ inst hinst hstopped => ?_⟩, List.length_replicate,
    fun r hr => absurd hr List.not_mem_nil, iff_of_true rfl ⟨rfl, rfl⟩, fun _ => ⟨?_, ?_⟩, .inl rfl⟩
  · rw [hphase inst hinst] at hstopped
    cases hstopped
  · have hrows : waitingRows (rowFetch (ν := ν) inp tasks).init.insts = [] :=
      List.filterMap_eq_nil_iff.mpr fun inst hinst => by rw [hphase inst hinst]; rfl
    rw [hrows]
    exact List.Perm.refl _
  · have hheld : heldResults (rowFetch (ν := ν) inp tasks).init.insts = [] :=
      List.flatMap_eq_nil_iff.mpr fun inst hinst => by rw [hphase inst hinst]; rfl
    rw [hheld]
    exact List.Perm.refl _

-- ---------------------------------------------------------------------------
-- Each step
-- ---------------------------------------------------------------------------

theorem fetchInv_enter {tasks i : Nat} (h : FetchInv inp tasks s)
    (hstep : step inp s (.enter i) = some s') : FetchInv inp tasks s' := by
  rw [step] at hstep
  obtain ⟨inst, hinst, hstep⟩ := Option.bind_eq_some_iff.mp hstep
  by_cases hphase : inst.phase = .called
  · rw [if_pos hphase] at hstep
    obtain rfl := Option.some.inj hstep
    have hrunning : inst.phase ≠ .stopped := by
      rw [hphase]
      decide
    have hnone := h.running hinst hrunning
    obtain ⟨claims, hclaims⟩ := h.claimed
    refine ⟨⟨claims, hclaims.set hinst hrunning fun hfailures hstopped => ?_⟩,
      List.length_set.trans h.tasks, h.calls, h.flags, fun hfailures => ?_, .inl hnone⟩
    · have herror := (h.flags.mp hfailures).1
      rw [enter, herror, if_neg Bool.false_ne_true] at hstopped
      cases hstopped
    · have herror := (h.flags.mp hfailures).1
      refine (h.accounted hfailures).set hinst ?_ ?_
      · rw [enter, herror, if_neg Bool.false_ne_true, Instance.waitingRow, Instance.waitingRow, hphase]
      · rw [enter, herror, if_neg Bool.false_ne_true, Instance.held, Instance.held, if_pos hphase]
        exact List.append_nil _
  · rw [if_neg hphase] at hstep
    cases hstep

theorem fetchInv_claim {tasks i : Nat} (h : FetchInv inp tasks s)
    (hsize : inp.keys.length + tasks ≤ UINT32) (hstep : step inp s (.claim i) = some s') :
    FetchInv inp tasks s' := by
  rw [step] at hstep
  obtain ⟨inst, hinst, hstep⟩ := Option.bind_eq_some_iff.mp hstep
  by_cases hphase : inst.phase = .claiming
  · rw [if_pos hphase] at hstep
    have hrunning : inst.phase ≠ .stopped := by
      rw [hphase]
      decide
    have hcalled : inst.phase ≠ .called := by
      rw [hphase]
      decide
    have hnone := h.running hinst hrunning
    obtain ⟨claims, hclaims⟩ := h.claimed
    have hlt := stopped_lt hinst hrunning
    rw [h.tasks] at hlt
    have hbound := hclaims.bound
    -- no access has come round to a row again
    have hcount : s.row_count = claims := by
      rw [hclaims.row_count]
      exact Nat.mod_eq_of_lt (by omega)
    have htotal : inp.total_rows = inp.keys.length := Nat.mod_eq_of_lt (by omega)
    rw [hcount] at hstep
    -- a row is left: it is requested, as the next of the rows in order
    by_cases hrow : claims < inp.keys.length
    · have hclaim : claim inp claims inst = some ({ inst with
          phase := .waiting claims, current_row := claims },
          [(claims, getRow inp inp.keys[claims])]) := by
        rw [claim, if_pos (htotal.symm ▸ hrow), List.getElem?_eq_getElem hrow]
        rfl
      rw [hclaim] at hstep
      obtain rfl := Option.some.inj hstep
      refine ⟨⟨claims + 1, rfl, ?_, ?_, fun hfailures x hx hstopped => ?_⟩,
        List.length_set.trans h.tasks, ?_, h.flags, fun hfailures => ?_, .inl hnone⟩
      · omega
      · show (s.requests ++ [_]).map Prod.fst = _
        have hmin : min claims inp.keys.length = claims := Nat.min_eq_left (by omega)
        have hmin' : min (claims + 1) inp.keys.length = claims + 1 := Nat.min_eq_left (by omega)
        rw [List.map_append, hclaims.rows, hmin, hmin', List.range_succ]
        rfl
      · -- whoever is done had found no row left, and one was left
        rcases mem_set hinst hx with rfl | hx
        · cases hstopped
        · have hle := hclaims.done hfailures x hx hstopped
          omega
      · intro r hr
        rcases List.mem_append.mp hr with hr | hr
        · exact h.calls r hr
        · rw [List.mem_singleton.mp hr]
          exact ⟨_, List.getElem?_eq_getElem hrow, rfl⟩
      · -- the new request belongs to the row the instance now waits for
        obtain ⟨rows, results, hrows, hresults, hset⟩ := parts_set hinst
        have haccounted := h.accounted hfailures
        have hwaiting : inst.waitingRow = none := by rw [Instance.waitingRow, hphase]
        rw [hwaiting] at hrows
        obtain ⟨hrows', hresults'⟩ := hset { inst with phase := .waiting claims, current_row := claims }
        refine ⟨?_, ?_⟩
        · show ((s.requests ++ [_]).map Prod.fst).Perm (_ ++ waitingRows (s.insts.set i _))
          rw [List.map_append]
          refine (haccounted.requests.append_right _).trans ?_
          rw [List.append_assoc]
          refine List.Perm.append_left _ ?_
          exact (List.perm_append_comm.trans (hrows.append_left [claims])).trans hrows'.symm
        · refine hresults'.trans (List.Perm.trans ?_ (hresults.symm.trans haccounted.results))
          rw [held_of_ne hcalled, held_of_ne (by simp)]
    · -- no row is left: one more instance is done, and nothing is requested
      have hclaim : claim inp claims inst =
          some ({ inst with phase := .stopped, current_row := claims }, []) := by
        rw [claim, if_neg (htotal.symm ▸ hrow)]
      rw [hclaim] at hstep
      obtain rfl := Option.some.inj hstep
      refine ⟨⟨claims + 1, rfl, ?_, ?_, fun _ _ _ _ => by omega⟩,
        List.length_set.trans h.tasks, ?_, h.flags, fun hfailures => ?_, .inl hnone⟩
      · show claims + 1 ≤ inp.keys.length + stopped (s.insts.set i _)
        rw [stopped_set hinst hrunning, if_pos rfl]
        omega
      · show (s.requests ++ []).map Prod.fst = _
        have hmin : min claims inp.keys.length = inp.keys.length := Nat.min_eq_right (by omega)
        have hmin' : min (claims + 1) inp.keys.length = inp.keys.length := Nat.min_eq_right (by omega)
        rw [List.append_nil, hclaims.rows, hmin, hmin']
      · show ∀ r ∈ s.requests ++ [], _
        rw [List.append_nil]
        exact h.calls
      · have haccounted : Accounted { s with
            insts := s.insts.set i { inst with phase := .stopped, current_row := claims } } := by
          refine (h.accounted hfailures).set hinst ?_ ?_
          · rw [Instance.waitingRow, Instance.waitingRow, hphase]
          · rw [held_of_ne (by simp), held_of_ne hcalled]
        refine ⟨?_, haccounted.results⟩
        show ((s.requests ++ []).map Prod.fst).Perm _
        rw [List.append_nil]
        exact haccounted.requests
  · rw [if_neg hphase] at hstep
    cases hstep

theorem fetchInv_cb {tasks i : Nat} {result : Option (WhereResultT ν)} (h : FetchInv inp tasks s)
    (hstep : step inp s (.cb i result) = some s') : FetchInv inp tasks s' := by
  rw [step] at hstep
  obtain ⟨inst, hinst, hstep⟩ := Option.bind_eq_some_iff.mp hstep
  cases hphase : inst.phase with
  | waiting row =>
    rw [hphase] at hstep
    have hrunning : inst.phase ≠ .stopped := by
      rw [hphase]
      exact Phase.noConfusion
    have hnone := h.running hinst hrunning
    obtain ⟨claims, hclaims⟩ := h.claimed
    -- the shared counter and who is done are as before
    have hclaims' : Claimed inp
        { s with
          insts := s.insts.set i
            { inst with phase := .called, exts := inst.exts ++ [result.getD []] } } claims :=
      hclaims.set hinst hrunning fun _ hstopped => Phase.noConfusion hstopped
    cases result with
    | some units =>
      obtain rfl := Option.some.inj hstep
      refine ⟨⟨claims, hclaims'.row_count, hclaims'.bound, hclaims'.rows, hclaims'.done⟩,
        List.length_set.trans h.tasks, h.calls, h.flags, fun hfailures => ?_, .inl hnone⟩
      -- the row goes from the rows waited for to the answers, its result to the instance
      have haccounted := h.accounted hfailures
      obtain ⟨rows, results, hrows, hresults, hset⟩ := parts_set hinst
      obtain ⟨hrows', hresults'⟩ := hset { inst with phase := .called, exts := inst.exts ++ [units] }
      have hwaiting : inst.waitingRow = some row := by rw [Instance.waitingRow, hphase]
      have hheld : inst.held = inst.query_result := by
        refine held_of_ne ?_
        rw [hphase]
        exact Phase.noConfusion
      have hheld' : { inst with phase := .called, exts := inst.exts ++ [units] }.held =
          inst.query_result ++ units := by
        rw [Instance.held, if_pos rfl, List.getLast?_concat]
        rfl
      rw [hwaiting] at hrows
      rw [hheld] at hresults
      rw [hheld'] at hresults'
      refine ⟨?_, ?_⟩
      · show (s.requests.map Prod.fst).Perm ((s.answers ++ [(row, units)]).map Prod.fst ++
          waitingRows (s.insts.set i _))
        refine haccounted.requests.trans ?_
        rw [List.map_append, List.append_assoc]
        refine List.Perm.append_left _ (hrows.trans ?_)
        exact hrows'.symm.append_left [row]
      · show (heldResults (s.insts.set i _)).Perm ((s.answers ++ [(row, units)]).flatMap Prod.snd)
        rw [List.flatMap_append, List.flatMap_singleton]
        have hothers := (hresults.symm.trans haccounted.results).append_right units
        refine hresults'.trans (List.Perm.trans ?_ hothers)
        rw [List.append_assoc, List.append_assoc]
        exact List.Perm.append_left _ List.perm_append_comm
    | none =>
      obtain rfl := Option.some.inj hstep
      -- a row has failed: nothing more is claimed of the results
      have hfailed : s.failures ++ [row] ≠ [] :=
        List.append_ne_nil_of_right_ne_nil _ (List.cons_ne_nil _ _)
      exact ⟨⟨claims, hclaims'.row_count, hclaims'.bound, hclaims'.rows,
          fun hfailures => absurd hfailures hfailed⟩,
        List.length_set.trans h.tasks, h.calls,
        iff_of_false hfailed fun hflags => Bool.noConfusion hflags.1,
        fun hfailures => absurd hfailures hfailed, .inl hnone⟩
  | called =>
    rw [hphase] at hstep
    cases hstep
  | claiming =>
    rw [hphase] at hstep
    cases hstep
  | stopped =>
    rw [hphase] at hstep
    cases hstep

theorem fetchInv_refuse {tasks i : Nat} (h : FetchInv inp tasks s)
    (hstep : step inp s (.refuse i) = some s') : FetchInv inp tasks s' := by
  rw [step] at hstep
  obtain ⟨inst, hinst, hstep⟩ := Option.bind_eq_some_iff.mp hstep
  cases hphase : inst.phase with
  | waiting row =>
    rw [hphase] at hstep
    obtain rfl := Option.some.inj hstep
    have hrunning : inst.phase ≠ .stopped := by
      rw [hphase]
      exact Phase.noConfusion
    have hnone := h.running hinst hrunning
    obtain ⟨claims, hclaims⟩ := h.claimed
    have hfailed : s.failures ++ [row] ≠ [] :=
      List.append_ne_nil_of_right_ne_nil _ (List.cons_ne_nil _ _)
    refine ⟨⟨claims, hclaims.row_count, ?_, hclaims.rows, fun hfailures => absurd hfailures hfailed⟩,
      List.length_set.trans h.tasks, h.calls,
      iff_of_false hfailed fun hflags => Bool.noConfusion hflags.2,
      fun hfailures => absurd hfailures hfailed, .inl hnone⟩
    show claims ≤ inp.keys.length + stopped (s.insts.set i _)
    rw [stopped_set hinst hrunning]
    have hbound := hclaims.bound
    omega
  | called =>
    rw [hphase] at hstep
    cases hstep
  | claiming =>
    rw [hphase] at hstep
    cases hstep
  | stopped =>
    rw [hphase] at hstep
    cases hstep

theorem fetchInv_complete {tasks : Nat} (h : FetchInv inp tasks s)
    (hstep : step inp s .complete = some s') : FetchInv inp tasks s' := by
  rw [step] at hstep
  by_cases hdone : s.completed = none ∧ s.insts.all (·.phase = .stopped) = true
  · rw [if_pos hdone] at hstep
    obtain rfl := Option.some.inj hstep
    have hall : ∀ inst ∈ s.insts, inst.phase = .stopped :=
      fun inst hinst => of_decide_eq_true (List.all_eq_true.mp hdone.2 inst hinst)
    obtain ⟨claims, hclaims⟩ := h.claimed
    exact ⟨⟨claims, hclaims.row_count, hclaims.bound, hclaims.rows, hclaims.done⟩, h.tasks, h.calls,
      h.flags, fun hfailures => ⟨(h.accounted hfailures).requests, (h.accounted hfailures).results⟩,
      .inr ⟨hall, rfl⟩⟩
  · rw [if_neg hdone] at hstep
    cases hstep

/-- What one step preserves. -/
theorem fetchInv_step {tasks : Nat} (hsize : inp.keys.length + tasks ≤ UINT32)
    (s : FetchState κ γ ν) (a : FetchAction ν) (s' : FetchState κ γ ν)
    (h : FetchInv inp tasks s) (hstep : (rowFetch inp tasks).step s a = some s') :
    FetchInv inp tasks s' := by
  cases a with
  | enter i => exact fetchInv_enter h hstep
  | claim i => exact fetchInv_claim h hsize hstep
  | cb i result => exact fetchInv_cb h hstep
  | refuse i => exact fetchInv_refuse h hstep
  | complete => exact fetchInv_complete h hstep

-- ---------------------------------------------------------------------------
-- Every run
-- ---------------------------------------------------------------------------

theorem sortUnits_perm (l : List (QueryResultUnit ν)) : (sortUnits l).Perm l := by
  induction l with
  | nil => exact List.Perm.refl _
  | cons x l ih => exact (insertSorted_perm x (sortUnits l)).trans (ih.cons x)

omit [LinearOrder ν] in
/-- Once all instances are done, what they hold is what is merged and no request is open. -/
theorem done_parts {insts : List (Instance ν)} (hall : ∀ inst ∈ insts, inst.phase = .stopped) :
    waitingRows insts = [] ∧ heldResults insts = QueryMerge insts := by
  refine ⟨List.filterMap_eq_nil_iff.mpr fun inst hinst => ?_, List.flatMap_congr fun inst hinst => ?_⟩
  · rw [Instance.waitingRow, hall inst hinst]
  · refine held_of_ne ?_
    rw [hall inst hinst]
    exact Phase.noConfusion

/-- The database is asked for the row with the predicates of `where_vec`, whose values, but for
those skipped, have this row's `T2:` in front. -/
structure Asks (skips : Text → Prop) (inp : Input κ γ) (rowkey : RowKey κ) (call : GetRow κ γ) :
    Prop where
  cf : call.cfname = inp.cf_name
  row : call.rowkey = rowkey
  range : call.cr = inp.cr
  predicates : List.Forall₂ (fun asked where_info =>
      asked.column = where_info.column ∧ asked.db_op = where_info.db_op ∧
      (skips where_info.value → asked.value = where_info.value) ∧
      (¬ skips where_info.value → asked.value = PrependT2 rowkey.T2 where_info.value))
    call.where_vec inp.where_vec

/-- What is fetched and reported, when the values that are left as they are satisfy `skips`. -/
structure Fetched (skips : Text → Prop) (inp : Input κ γ) (s : FetchState κ γ ν) : Prop where
  once : (s.requests.map Prod.fst).Nodup
  asks : ∀ r ∈ s.requests, ∃ rowkey, inp.keys[r.1]? = some rowkey ∧ Asks skips inp rowkey r.2
  success : ∀ res, s.completed = some (.QUERY_SUCCESS, res) →
    (s.requests.map Prod.fst).Perm (List.range inp.keys.length) ∧
    (s.answers.map Prod.fst).Perm (List.range inp.keys.length) ∧
    res.Perm (s.answers.flatMap Prod.snd) ∧
    ∀ n, (∀ unit ∈ res, InfoLength n unit) → SortedUnits n res
  failure : s.failures ≠ [] → ∀ status res, s.completed = some (status, res) → status = .QUERY_FAILURE

/-- A value that `PipelineCb` leaves alone. -/
def IsPattern (value : Text) : Prop := value.head? = some '%'

omit [LinearOrder ν] in
theorem getRow_asks (inp : Input κ γ) (rowkey : RowKey κ) :
    Asks IsPattern inp rowkey (getRow inp rowkey) := by
  refine ⟨rfl, rfl, rfl, List.forall₂_map_left_iff.mpr (List.forall₂_same.mpr fun where_info _ => ?_)⟩
  exact ⟨rfl, rfl, fun hpattern => if_pos hpattern, fun hpattern => if_neg hpattern⟩

theorem fetchInv_fetched {tasks : Nat} (htasks : inp.keys = [] ∨ 0 < tasks) (h : FetchInv inp tasks s) :
    Fetched IsPattern inp s := by
  obtain ⟨claims, hclaims⟩ := h.claimed
  have hreported : ∀ status res, s.completed = some (status, res) →
      (∀ inst ∈ s.insts, inst.phase = .stopped) ∧
      WPCompleteCb s.query_fetch_error s.ret_code (QueryMerge s.insts) = (status, res) := by
    intro status res hcompleted
    rcases h.completed with hnone | ⟨hall, hsome⟩
    · rw [hnone] at hcompleted
      cases hcompleted
    · exact ⟨hall, Option.some.inj (hsome.symm.trans hcompleted)⟩
  refine ⟨?_, fun r hr => ?_, fun res hcompleted => ?_, fun hfailures status res hcompleted => ?_⟩
  · rw [hclaims.rows]
    exact List.nodup_range
  · obtain ⟨rowkey, hrowkey, hcall⟩ := h.calls r hr
    exact ⟨rowkey, hrowkey, hcall ▸ getRow_asks inp rowkey⟩
  · obtain ⟨hall, hstatus⟩ := hreported _ _ hcompleted
    obtain ⟨hstatus, hres⟩ := Prod.mk.inj hstatus
    have hflags : (s.ret_code && !s.query_fetch_error) = true := by
      by_contra hflags
      rw [if_neg hflags] at hstatus
      cases hstatus
    have hfailures : s.failures = [] := by
      rw [Bool.and_eq_true, Bool.not_eq_true'] at hflags
      exact h.flags.mpr ⟨hflags.2, hflags.1⟩
    have haccounted := h.accounted hfailures
    obtain ⟨hwaiting, hheld⟩ := done_parts hall
    -- an instance that is done has found no row left
    have hle : inp.keys.length ≤ claims := by
      rcases htasks with hkeys | htasks
      · rw [hkeys]
        exact Nat.zero_le _
      · have hpos : 0 < s.insts.length := h.tasks ▸ htasks
        exact hclaims.done hfailures _ (List.getElem_mem hpos) (hall _ (List.getElem_mem hpos))
    have hrows : s.requests.map Prod.fst = List.range inp.keys.length := by
      rw [hclaims.rows, Nat.min_eq_right hle]
    have hanswers := haccounted.requests
    rw [hwaiting, List.append_nil, hrows] at hanswers
    refine ⟨hrows ▸ List.Perm.refl _, hanswers.symm, ?_, fun n hlength => ?_⟩
    · rw [← hres]
      exact (sortUnits_perm _).trans (hheld ▸ haccounted.results)
    · rw [← hres] at hlength ⊢
      exact sortUnits_sorted fun unit hunit => hlength unit ((sortUnits_perm _).mem_iff.mpr hunit)
  · obtain ⟨-, hstatus⟩ := hreported _ _ hcompleted
    have hflags : ¬ (s.ret_code && !s.query_fetch_error) = true := by
      intro hflags
      rw [Bool.and_eq_true, Bool.not_eq_true'] at hflags
      exact hfailures (h.flags.mpr ⟨hflags.2, hflags.1⟩)
    rw [← (Prod.mk.inj hstatus).1, if_neg hflags]

/-- Whatever the instances do in whatever order: no row is requested twice, each with the
predicates that belong to it, success means that all rows have been fetched, and a failed row is
reported. `row_count` does not come round while it counts each row and each instance once. -/
theorem row_fetch_sound {inp : Input κ γ} {tasks : Nat} (htasks : inp.keys = [] ∨ 0 < tasks)
    (hsize : inp.keys.length + tasks ≤ UINT32) {s : FetchState κ γ ν}
    (h : (rowFetch inp tasks).Reachable s) : Fetched IsPattern inp s :=
  fetchInv_fetched htasks (h.invariant (fetchInv_init inp tasks) (fetchInv_step hsize))

section Runs

/-- A run in which the second instance is the first to have its row. -/
def sampleInput : Input Unit Unit where
  cf_name := "StatsTableByStrTagV3"
  cr := ()
  where_vec := [⟨"column2", .EQ, ['a']⟩]
  keys := [⟨1, ()⟩, ⟨2, ()⟩]

def sampleRun : List (FetchAction Nat) :=
  [.enter 0, .enter 1, .claim 1, .claim 0, .cb 0 (some [⟨7, [1]⟩]), .enter 0, .cb 1 (some [⟨5, [1]⟩]),
    .enter 1, .claim 1, .claim 0, .complete]

theorem row_fetch_sampleRun : ∃ s, (rowFetch sampleInput 2).run sampleRun = some s ∧
    s.completed = some (.QUERY_SUCCESS, [⟨5, [1]⟩, ⟨7, [1]⟩]) ∧ Fetched IsPattern sampleInput s := by
  have hcompleted : ((rowFetch sampleInput 2).run sampleRun).map FetchState.completed =
      some (some (.QUERY_SUCCESS, [⟨5, [1]⟩, ⟨7, [1]⟩])) := by decide
  obtain ⟨s, hrun, hcompleted⟩ := Option.map_eq_some_iff.mp hcompleted
  exact ⟨s, hrun, hcompleted,
    row_fetch_sound (.inr Nat.two_pos) (by decide) (System.reachable_of_run hrun)⟩

/-- One row. -/
def oneRow (where_vec : List WhereIndexInfo) : Input Unit Unit where
  cf_name := "StatsTableByStrTagV3"
  cr := ()
  where_vec := where_vec
  keys := [⟨1, ()⟩]

/-- An instance without a failed fetch begins its next step. -/
theorem reachable_claim {tasks i : Nat} {s : FetchState κ γ ν} (h : (rowFetch inp tasks).Reachable s)
    {inst inst' : Instance ν} {requests : List (Nat × GetRow κ γ)} (hinst : s.insts[i]? = some inst)
    (hphase : inst.phase = .called) (herror : s.query_fetch_error = false)
    (hclaim : claim inp s.row_count (enter false inst) = some (inst', requests)) :
    (rowFetch inp tasks).Reachable { s with
      row_count := (s.row_count + 1) % UINT32
      insts := s.insts.set i inst'
      requests := s.requests ++ requests } := by
  have henter : (rowFetch inp tasks).step s (.enter i) =
      some { s with insts := s.insts.set i (enter false inst) } := by
    show step inp s (.enter i) = _
    rw [step, hinst, ← herror]
    exact if_pos hphase
  refine (h.step henter).step (a := .claim i) ?_
  show step inp { s with insts := s.insts.set i (enter false inst) } (.claim i) = _
  have hset : (s.insts.set i (enter false inst))[i]? = some (enter false inst) :=
    List.getElem?_set_self (List.getElem?_eq_some_iff.mp hinst).1
  have hclaiming : (enter false inst).phase = .claiming := rfl
  rw [step, hset, Option.bind_eq_bind, Option.bind_some, if_pos hclaiming, hclaim]
  show some _ = some _
  rw [List.set_set]

abbrev sampleInstance : Instance Nat :=
  { phase := .called, exts := [], query_result := [], current_row := 0 }

/-- The first instance fetches the row, and the next `n` have found none. -/
structure Passed (tasks n : Nat) (s : FetchState Unit Unit Nat) : Prop where
  reachable : (rowFetch (oneRow []) tasks).Reachable s
  row_count : s.row_count = (n + 1) % UINT32
  requests : s.requests.map Prod.fst = [0]
  running : s.query_fetch_error = false
  first : ∃ inst, s.insts[0]? = some inst ∧ inst.phase = .waiting 0
  others : ∀ j, n < j → j < tasks → s.insts[j]? = some sampleInstance

theorem passed_zero {tasks : Nat} (htasks : 0 < tasks) : ∃ s, Passed tasks 0 s := by
  have hinst : ∀ j, j < tasks →
      (rowFetch (ν := Nat) (oneRow []) tasks).init.insts[j]? = some sampleInstance :=
    fun j hj => List.getElem?_replicate_of_lt hj
  refine ⟨_, reachable_claim .init (hinst 0 htasks) rfl rfl rfl, rfl, rfl, rfl,
    ⟨{ sampleInstance with phase := .waiting 0 }, ?_, rfl⟩, fun j hj hlt => ?_⟩
  · exact List.getElem?_set_self (List.getElem?_eq_some_iff.mp (hinst 0 htasks)).1
  · exact (List.getElem?_set_ne (Nat.ne_of_lt hj)).trans (hinst j hlt)

theorem passed_succ {tasks n : Nat} {s : FetchState Unit Unit Nat} (h : Passed tasks n s)
    (hlt : n + 1 < tasks) (hcount : n + 1 < UINT32) : ∃ s, Passed tasks (n + 1) s := by
  have hinst := h.others (n + 1) (Nat.lt_succ_self n) hlt
  have hrow : s.row_count = n + 1 := h.row_count.trans (Nat.mod_eq_of_lt hcount)
  have hclaim : claim (oneRow []) s.row_count (enter false sampleInstance) =
      some ({ sampleInstance with phase := .stopped, current_row := s.row_count }, []) := by
    have hdone : ¬ n + 1 < (oneRow []).total_rows := Nat.not_lt.mpr (Nat.le_add_left 1 n)
    rw [hrow, claim, if_neg hdone]
    rfl
  obtain ⟨inst, hfirst, hphase⟩ := h.first
  refine ⟨_, reachable_claim h.reachable hinst rfl h.running hclaim, ?_, ?_, h.running,
    ⟨inst, ?_, hphase⟩, fun j hj hlt => ?_⟩
  · rw [hrow]
  · rw [List.append_nil]
    exact h.requests
  · exact (List.getElem?_set_ne (Nat.succ_ne_zero n)).trans hfirst
  · exact (List.getElem?_set_ne (by omega)).trans (h.others j (by omega) hlt)

theorem passed_all {tasks : Nat} (n : Nat) (htasks : n < tasks) (hcount : n < UINT32) :
    ∃ s, Passed tasks n s := by
  induction n with
  | zero => exact passed_zero htasks
  | succ n ih =>
    obtain ⟨s, hs⟩ := ih (by omega) (by omega)
    exact passed_succ hs htasks hcount

/-- With `2^32` instances, `row_count` comes round to the row. -/
theorem requested_twice : ∃ s, (rowFetch (ν := Nat) (oneRow []) UINT32).Reachable s ∧
    ¬ (s.requests.map Prod.fst).Nodup := by
  obtain ⟨s, hs⟩ : ∃ s, Passed UINT32 (UINT32 - 1) s := passed_all _ (by decide) (by decide)
  obtain ⟨inst, hfirst, hphase⟩ := hs.first
  have hcb : (rowFetch (oneRow []) UINT32).step s (.cb 0 (some [])) = some { s with
      insts := s.insts.set 0 { inst with phase := .called, exts := inst.exts ++ [[]] }
      answers := s.answers ++ [(0, [])] } := by
    show step (oneRow []) s (.cb 0 (some [])) = _
    rw [step, hfirst, Option.bind_eq_bind, Option.bind_some, hphase]
    rfl
  have hset := List.getElem?_set_self (a := { inst with phase := .called, exts := inst.exts ++ [[]] })
    (List.getElem?_eq_some_iff.mp hfirst).1
  have hrow : s.row_count = 0 := hs.row_count.trans (by decide)
  have hclaim : claim (oneRow []) s.row_count (enter false
      { inst with phase := .called, exts := inst.exts ++ [[]] }) =
      some ({ enter false { inst with phase := .called, exts := inst.exts ++ [[]] } with
        phase := .waiting 0, current_row := 0 }, [(0, getRow (oneRow []) ⟨1, ()⟩)]) := by
    rw [hrow]
    rfl
  refine ⟨_, reachable_claim (hs.reachable.step hcb) hset rfl hs.running hclaim, ?_⟩
  show ¬ ((s.requests ++ [_]).map Prod.fst).Nodup
  rw [List.map_append, hs.requests]
  decide

/-- A value of a label tag stays as it is, without an instance no row is fetched, and with too many
a row is fetched twice. -/
theorem not_fetched :
    (∃ s : FetchState Unit Unit Nat, (rowFetch (oneRow [⟨"column3", .LIKE, ['%', 'a']⟩]) 1).Reachable s ∧
      ¬ Fetched (fun _ => False) (oneRow [⟨"column3", .LIKE, ['%', 'a']⟩]) s) ∧
    (∃ s : FetchState Unit Unit Nat, (rowFetch (oneRow []) 0).Reachable s ∧
      ¬ Fetched (fun _ => False) (oneRow []) s) ∧
    ∃ s : FetchState Unit Unit Nat, (rowFetch (oneRow []) UINT32).Reachable s ∧
      ¬ Fetched (fun _ => False) (oneRow []) s := by
  refine ⟨?_, ?_, ?_⟩
  · have hrequests : ((rowFetch (ν := Nat) (oneRow [⟨"column3", .LIKE, ['%', 'a']⟩]) 1).run
        [.enter 0, .claim 0]).map FetchState.requests =
        some [(0, getRow (oneRow [⟨"column3", .LIKE, ['%', 'a']⟩]) ⟨1, ()⟩)] := rfl
    obtain ⟨s, hrun, hrequests⟩ := Option.map_eq_some_iff.mp hrequests
    refine ⟨s, System.reachable_of_run hrun, fun h => ?_⟩
    obtain ⟨rowkey, hrowkey, hasks⟩ := h.asks _ (hrequests ▸ List.mem_singleton.mpr rfl)
    obtain rfl := Option.some.inj hrowkey
    have hvalue := (List.forall₂_cons.mp hasks.predicates).1.2.2.2 not_false
    exact absurd hvalue (by decide)
  · have hparts : ((rowFetch (ν := Nat) (oneRow []) 0).run [.complete]).map
        (fun s => (s.requests.map Prod.fst, s.completed)) = some ([], some (.QUERY_SUCCESS, [])) := rfl
    obtain ⟨s, hrun, hparts⟩ := Option.map_eq_some_iff.mp hparts
    obtain ⟨hrequests, hcompleted⟩ := Prod.mk.inj hparts
    refine ⟨s, System.reachable_of_run hrun, fun h => ?_⟩
    have hall := (h.success [] hcompleted).1
    rw [hrequests] at hall
    exact absurd hall.length_eq (by decide)
  · obtain ⟨s, hreachable, htwice⟩ := requested_twice
    exact ⟨s, hreachable, fun h => htwice h.once⟩

end Runs

end RowFetch

end TfAnalytics.QueryEngine
