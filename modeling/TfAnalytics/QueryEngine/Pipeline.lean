import TfAnalytics.Lib.Transition
import TfAnalytics.QueryEngine.ResultFolding
import TfAnalytics.QueryEngine.SetOperation
import Mathlib.Data.List.Count
import Mathlib.Data.List.Range

/-!
# Query engine — the query pipeline

`QEOpServerProxy.cc`: the instances of the first stage claim chunks from a
shared counter, and for each chunk run the OR terms of the WHERE one after the
other, then the SELECT on their union, then fold the output into their result.
`QueryMerge` merges the results of the instances and `QueryResp` reports the
progress.

An instance does not store where it is. `QueryExec` is called with the results
of all finished steps and works out from their number, modulo `wterms + 1`,
what the last one was. The model keeps exactly that; a run interleaves the
instances at their accesses to the shared counters. The work pipeline library
calls `QueryExec` once for each finished step.

* `Follows`: what an instance has done, read off its calls;
* `pipeline_invariant`: the invariant of every run;
* `pipeline_complete`: with at least one OR term, progress 100 means that every
  chunk was claimed once, ran all its steps, and was folded once.
-/

namespace TfAnalytics.QueryEngine

open TfAnalytics.Lib

/-- `uint32_t`. -/
def UINT32 : Nat := 2 ^ 32

/-- The part of `Input` that decides how a query runs. -/
structure PipelineInput where
  wterms : Nat
  /-- The number of elements of `chunk_size`. -/
  chunks : Nat
  max_rows : Nat
  max_tasks : Nat

/-- What a finished step gives to `QueryExec`. A WHERE step sets `wres`, a SELECT
step `res`; the other pointer is null. -/
structure RawResultT (ν ρ : Type) where
  error : Bool
  wres : Option (WhereResultT ν)
  res : Option ρ

/-- The functions `QueryExec` may have called next. -/
inductive Efn (ν : Type) where
  | QueryExecWhere (chunk or_number : Nat)
  | QueryExec (chunk : Nat) (where_info : WhereResultT ν)

/-- The state of an instance. -/
structure Stage0Out (ν ρ : Type) where
  ret_code : Bool
  result : ρ
  welem : List (Option (WhereResultT ν))
  wresult : WhereResultT ν
  current_chunk : Nat

/-- Undefined behaviour or an abort. -/
inductive Fault where
  | outOfRange | nullPointer | assertion | merge
  deriving DecidableEq

/-- What `QueryExec` does before it touches `chunk_q`: start another step, go on
to claim a chunk, or return NULL. -/
inductive Next (ν : Type) where
  | call (f : Efn ν)
  | claim
  | stop

section

variable {ν ρ : Type}

-- ---------------------------------------------------------------------------
-- QueryExec
-- ---------------------------------------------------------------------------

/-- `welem[i] = v`. -/
def setElem (welem : List (Option (WhereResultT ν))) (i : Nat) (v : Option (WhereResultT ν)) :
    Except Fault (List (Option (WhereResultT ν))) :=
  if i < welem.length then .ok (welem.set i v) else .error .outOfRange

/-- The results behind the pointers. -/
def derefAll : List (Option (WhereResultT ν)) → Except Fault (List (WhereResultT ν))
  | [] => .ok []
  | none :: _ => .error .nullPointer
  | some t :: rest => (derefAll rest).map fun ts => t :: ts

/-- The state that the first call sets up. -/
def firstCall (inp : PipelineInput) (F : Folding ρ) : Stage0Out ν ρ where
  ret_code := true
  result := F.empty
  welem := List.replicate inp.wterms none
  wresult := []
  current_chunk := 0

/-- The last OR term is there: build the union and start the SELECT. -/
def startSelect [LinearOrder ν] (inp : PipelineInput) (i : Nat) (ext : RawResultT ν ρ)
    (res : Stage0Out ν ρ) : Except Fault (Next ν × Stage0Out ν ρ) := do
  let welem ← setElem res.welem i ext.wres
  let oterms ← derefAll welem
  if res.wresult.length ≠ 0 then .error .assertion
  else
    match op_or oterms with
    | none => .error .outOfRange
    | some wresult =>
      .ok (.call (.QueryExec res.current_chunk wresult),
        { res with welem := List.replicate inp.wterms none, wresult := wresult })

/-- A chunk is complete: fold its output in and count the rows. -/
def finishChunk (inp : PipelineInput) (F : Folding ρ) (parsed : Bool) (ext : RawResultT ν ρ)
    (res : Stage0Out ν ρ) (total_rows : Nat) :
    Except Fault (Next ν × Stage0Out ν ρ × Nat) :=
  match ext.res with
  | none => .error .nullPointer
  | some output =>
    match F.fold parsed res.result output with
    | none => .error .merge
    | some (rc, result) =>
      let added_rows := (F.size result + UINT32 - F.size res.result % UINT32) % UINT32
      let res' := { res with ret_code := rc, result := result, wresult := [] }
      .ok (if total_rows > inp.max_rows then .stop else .claim, res',
        (total_rows + added_rows) % UINT32)

/-- `QueryExec` with the results `exts` of all earlier steps and `ext` of the
last, up to its next access to `chunk_q`. -/
def QueryExec [LinearOrder ν] (inp : PipelineInput) (F : Folding ρ) (parsed : Bool)
    (exts : List (RawResultT ν ρ)) (ext : RawResultT ν ρ) (res : Stage0Out ν ρ)
    (total_rows : Nat) : Except Fault (Next ν × Stage0Out ν ρ × Nat) :=
  let step := (exts.length + 1) % UINT32
  let ret_code := res.ret_code && !ext.error
  if ret_code = false then .ok (.stop, { res with ret_code := false }, total_rows)
  else
    let substep := step % ((inp.wterms + 1) % UINT32)
    -- the index `substep - 1`, an unsigned number
    let prev := (substep + UINT32 - 1) % UINT32
    if substep = inp.wterms then
      (startSelect inp prev ext res).map fun r => (r.1, r.2, total_rows)
    else if substep = 0 then finishChunk inp F parsed ext res total_rows
    else
      (setElem res.welem prev ext.wres).map fun welem =>
        (.call (.QueryExecWhere res.current_chunk substep), { res with welem := welem },
          total_rows)

-- ---------------------------------------------------------------------------
-- Runs of the first stage
-- ---------------------------------------------------------------------------

/-- Where the pipeline library is with an instance. -/
inductive Phase (ν : Type) where
  | ready
  | claiming
  | waiting (f : Efn ν)
  | stopped

/-- An instance, with the results of its finished steps and a record of the
functions `QueryExec` returned. -/
structure Instance (ν ρ : Type) where
  phase : Phase ν
  exts : List (RawResultT ν ρ)
  calls : List (Efn ν)
  out : Stage0Out ν ρ

structure PipelineState (ν ρ : Type) where
  chunk_q : Nat
  total_rows : Nat
  insts : List (Instance ν ρ)
  fault : Option Fault

/-- What can happen next: the first call for an instance, its access to
`chunk_q`, or the end of the step it waits for, with the result and whether a
merge that follows finds the query in order. -/
inductive PipelineAction (ν ρ : Type) where
  | start (i : Nat)
  | claim (i : Nat)
  | finish (i : Nat) (ext : RawResultT ν ρ) (parsed : Bool)

/-- A WHERE step answers with a result vector, a SELECT step with rows. -/
def Answers : Efn ν → RawResultT ν ρ → Bool
  | .QueryExecWhere _ _, ext => ext.wres.isSome && ext.res.isNone
  | .QueryExec _ _, ext => ext.wres.isNone && ext.res.isSome

/-- `chunk_q.fetch_and_increment()` returned `chunknum`. -/
def claimChunk (inp : PipelineInput) (chunknum : Nat) (inst : Instance ν ρ) : Instance ν ρ :=
  let out := { inst.out with current_chunk := chunknum }
  if chunknum < inp.chunks then
    { inst with
      phase := .waiting (.QueryExecWhere chunknum 0), out := out,
      calls := inst.calls ++ [.QueryExecWhere chunknum 0] }
  else { inst with phase := .stopped, out := out }

/-- The instance after `QueryExec` has dealt with `ext`. -/
def advance (inst : Instance ν ρ) (ext : RawResultT ν ρ) (next : Next ν)
    (out : Stage0Out ν ρ) : Instance ν ρ :=
  let inst := { inst with exts := inst.exts ++ [ext], out := out }
  match next with
  | .call f => { inst with phase := .waiting f, calls := inst.calls ++ [f] }
  | .claim => { inst with phase := .claiming }
  | .stop => { inst with phase := .stopped }

/-- One step of a run. After a fault there is none. -/
def pipelineStep [LinearOrder ν] (inp : PipelineInput) (F : Folding ρ) (s : PipelineState ν ρ)
    (a : PipelineAction ν ρ) : Option (PipelineState ν ρ) :=
  if s.fault.isSome then none
  else
    match a with
    | .start i => do
      let inst ← s.insts[i]?
      match inst.phase with
      | .ready =>
        some { s with insts := s.insts.set i { inst with phase := .claiming, out := firstCall inp F } }
      | _ => none
    | .claim i => do
      let inst ← s.insts[i]?
      match inst.phase with
      | .claiming =>
        some { s with
          chunk_q := (s.chunk_q + 1) % UINT32,
          insts := s.insts.set i (claimChunk inp s.chunk_q inst) }
      | _ => none
    | .finish i ext parsed => do
      let inst ← s.insts[i]?
      match inst.phase with
      | .waiting f =>
        if Answers f ext then
          match QueryExec inp F parsed inst.exts ext inst.out s.total_rows with
          | .error fault => some { s with fault := some fault }
          | .ok (next, out, total_rows) =>
            some { s with
              total_rows := total_rows, insts := s.insts.set i (advance inst ext next out) }
        else none
      | _ => none

/-- The pipeline as a system. -/
def pipeline [LinearOrder ν] (inp : PipelineInput) (F : Folding ρ) :
    System (PipelineState ν ρ) (PipelineAction ν ρ) where
  init :=
    { chunk_q := 0
      total_rows := 0
      insts := List.replicate inp.max_tasks
        { phase := .ready, exts := [], calls := [], out := firstCall inp F }
      fault := none }
  step := pipelineStep inp F

-- ---------------------------------------------------------------------------
-- QueryMerge, QueryResp
-- ---------------------------------------------------------------------------

structure Stage0Merge (ρ : Type) where
  ret_code : Bool
  overflow : Bool
  result : ρ

/-- `QueryMerge`; there is no `subs[0]` without instances, and a merge may abort. -/
def QueryMerge (inp : PipelineInput) (F : Folding ρ) (parsed : Bool)
    (subs : List (Stage0Out ν ρ)) : Option (Stage0Merge ρ) :=
  if subs.length = 0 then none
  else
    let total_rows := (subs.map fun sub => F.size sub.result).sum % UINT32
    if total_rows > inp.max_rows then
      some { ret_code := true, overflow := true, result := F.empty }
    else if subs.all (fun sub => sub.ret_code) = false then
      some { ret_code := false, overflow := false, result := F.empty }
    else
      (F.merge parsed (subs.map fun sub => sub.result)).map fun r =>
        { ret_code := r.1, overflow := false, result := r.2 }

def ENOBUFS : Int := 105
def EIO : Int := 5

/-- The progress that `QueryResp` reports last. -/
def QueryResp (m : Stage0Merge ρ) : Int :=
  if m.overflow then - ENOBUFS else if m.ret_code = false then - EIO else 100

-- ---------------------------------------------------------------------------
-- What an instance has done
-- ---------------------------------------------------------------------------

/-- A chunk that ran to its end: the results of its OR terms, their union and
the output of the SELECT. -/
structure ChunkRun (ν ρ : Type) where
  chunk : Nat
  terms : List (WhereResultT ν)
  where_info : WhereResultT ν
  output : ρ

/-- The first `k` OR terms of a chunk, in order. -/
def whereCalls (chunk k : Nat) : List (Efn ν) := (List.range k).map (Efn.QueryExecWhere chunk)

def termResult (t : WhereResultT ν) : RawResultT ν ρ := { error := false, wres := some t, res := none }

/-- The calls for a chunk: each OR term once, then the SELECT once. -/
def ChunkRun.calls (r : ChunkRun ν ρ) : List (Efn ν) :=
  whereCalls r.chunk r.terms.length ++ [.QueryExec r.chunk r.where_info]

/-- The results of these calls, in their order. -/
def ChunkRun.exts (r : ChunkRun ν ρ) : List (RawResultT ν ρ) :=
  r.terms.map termResult ++ [{ error := false, wres := none, res := some r.output }]

/-- All OR terms were run, and the SELECT on the union of their results. -/
structure ChunkRun.Valid [LinearOrder ν] (inp : PipelineInput) (r : ChunkRun ν ρ) : Prop where
  terms : r.terms.length = inp.wterms
  union : op_or r.terms = some r.where_info

/-- A chunk under way: some OR terms have been started, or all of them and the
SELECT on the union of their results. -/
inductive UnderWay [LinearOrder ν] (inp : PipelineInput) :
    List (Efn ν) → List (RawResultT ν ρ) → Prop where
  | terms (chunk : Nat) (ts : List (WhereResultT ν)) (h : ts.length < inp.wterms) :
      UnderWay inp (whereCalls chunk (ts.length + 1)) (ts.map termResult)
  | select (chunk : Nat) (ts : List (WhereResultT ν)) (info : WhereResultT ν)
      (h : ts.length = inp.wterms) (hor : op_or ts = some info) :
      UnderWay inp (whereCalls chunk ts.length ++ [.QueryExec chunk info]) (ts.map termResult)

/-- The chunk numbers an instance has claimed. -/
def claimsOf (calls : List (Efn ν)) : List Nat :=
  calls.filterMap fun f => match f with
    | .QueryExecWhere chunk 0 => some chunk
    | _ => none

theorem whereCalls_succ (chunk k : Nat) :
    (whereCalls chunk (k + 1) : List (Efn ν)) = whereCalls chunk k ++ [.QueryExecWhere chunk k] := by
  unfold whereCalls
  rw [List.range_succ, List.map_append]
  rfl

theorem claimsOf_append (l l' : List (Efn ν)) :
    claimsOf (l ++ l') = claimsOf l ++ claimsOf l' :=
  List.filterMap_append ..

theorem claimsOf_whereCalls (chunk k : Nat) :
    claimsOf (whereCalls chunk (k + 1) : List (Efn ν)) = [chunk] := by
  induction k with
  | zero => rfl
  | succ k ih =>
    rw [whereCalls_succ, claimsOf_append, ih]
    rfl

theorem claimsOf_calls [LinearOrder ν] {inp : PipelineInput} (hw : 1 ≤ inp.wterms)
    {r : ChunkRun ν ρ} (h : r.Valid inp) : claimsOf r.calls = [r.chunk] := by
  obtain ⟨k, hk⟩ : ∃ k, r.terms.length = k + 1 := ⟨r.terms.length - 1, by have := h.terms; omega⟩
  unfold ChunkRun.calls
  rw [claimsOf_append, hk, claimsOf_whereCalls]
  rfl

theorem claimsOf_flatMap [LinearOrder ν] {inp : PipelineInput} (hw : 1 ≤ inp.wterms)
    {runs : List (ChunkRun ν ρ)} (h : ∀ r ∈ runs, r.Valid inp) :
    claimsOf (runs.flatMap ChunkRun.calls) = runs.map ChunkRun.chunk := by
  induction runs with
  | nil => rfl
  | cons r runs ih =>
    rw [List.flatMap_cons, claimsOf_append, claimsOf_calls hw (h r (List.mem_cons_self ..)),
      ih fun r' hr' => h r' (List.mem_cons_of_mem _ hr')]
    rfl

theorem length_exts_flatMap [LinearOrder ν] {inp : PipelineInput} {runs : List (ChunkRun ν ρ)}
    (h : ∀ r ∈ runs, r.Valid inp) :
    (runs.flatMap ChunkRun.exts).length = runs.length * (inp.wterms + 1) := by
  induction runs with
  | nil => simp
  | cons r runs ih =>
    rw [List.flatMap_cons, List.length_append, ih fun r' hr' => h r' (List.mem_cons_of_mem _ hr')]
    simp only [ChunkRun.exts, List.length_append, List.length_map, List.length_nil,
      (h r (List.mem_cons_self ..)).terms, List.length_cons]
    rw [Nat.add_mul]
    omega

/-- The rows in the answers an instance got. -/
def answered (F : Folding ρ) (exts : List (RawResultT ν ρ)) : Nat :=
  (exts.map fun ext => (ext.res.map F.size).getD 0).sum

/-- The rows in all answers so far. -/
def answeredRows (F : Folding ρ) (s : PipelineState ν ρ) : Nat :=
  (s.insts.map fun inst => answered F inst.exts).sum

/-- Where an instance is, after the chunks `runs`. -/
def AtPhase [LinearOrder ν] (inp : PipelineInput) (F : Folding ρ) (inst : Instance ν ρ)
    (runs : List (ChunkRun ν ρ)) : Prop :=
  match inst.phase with
  | .ready => runs = [] ∧ inst.calls = [] ∧ inst.exts = [] ∧ inst.out = firstCall inp F
  | .claiming =>
    inst.calls = runs.flatMap ChunkRun.calls ∧ inst.exts = runs.flatMap ChunkRun.exts ∧
      inst.out.welem = List.replicate inp.wterms none ∧ inst.out.wresult = []
  | .waiting (.QueryExecWhere chunk k) =>
    ∃ ts : List (WhereResultT ν), ts.length = k ∧ k < inp.wterms ∧
      inst.calls = runs.flatMap ChunkRun.calls ++ whereCalls chunk (k + 1) ∧
      inst.exts = runs.flatMap ChunkRun.exts ++ ts.map termResult ∧
      inst.out.welem = ts.map some ++ List.replicate (inp.wterms - k) none ∧
      inst.out.wresult = [] ∧ inst.out.current_chunk = chunk
  | .waiting (.QueryExec chunk info) =>
    ∃ ts : List (WhereResultT ν), ts.length = inp.wterms ∧ op_or ts = some info ∧
      inst.calls = runs.flatMap ChunkRun.calls ++ (whereCalls chunk ts.length ++ [.QueryExec chunk info]) ∧
      inst.exts = runs.flatMap ChunkRun.exts ++ ts.map termResult ∧
      inst.out.welem = List.replicate inp.wterms none ∧ inst.out.current_chunk = chunk
  | .stopped =>
    (inst.calls = runs.flatMap ChunkRun.calls ∧ inst.exts = runs.flatMap ChunkRun.exts) ∨
    (inst.out.ret_code = false ∧ ∃ calls exts ext, UnderWay inp calls exts ∧
      inst.calls = runs.flatMap ChunkRun.calls ++ calls ∧
      inst.exts = runs.flatMap ChunkRun.exts ++ exts ++ [ext])

/-- The invariant of an instance. -/
structure Follows [LinearOrder ν] (inp : PipelineInput) (F : Folding ρ) (inst : Instance ν ρ)
    (runs : List (ChunkRun ν ρ)) : Prop where
  valid : ∀ r ∈ runs, r.Valid inp
  phase : AtPhase inp F inst runs
  folded : inst.out.ret_code = true → F.foldAll (runs.map ChunkRun.output) = some inst.out.result
  size : F.size inst.out.result ≤ answered F inst.exts

-- ---------------------------------------------------------------------------
-- One call of QueryExec
-- ---------------------------------------------------------------------------

theorem setElem_next {ts : List (WhereResultT ν)} {w : Nat} (h : ts.length < w)
    (t : WhereResultT ν) :
    setElem (ts.map some ++ List.replicate (w - ts.length) none) ts.length (some t) =
      .ok ((ts ++ [t]).map some ++ List.replicate (w - (ts.length + 1)) none) := by
  unfold setElem
  rw [if_pos (by simp; omega)]
  have hrep : w - ts.length = (w - (ts.length + 1)) + 1 := by omega
  rw [hrep, List.replicate_succ, List.set_append_right _ _ (by simp)]
  simp

theorem derefAll_map_some (ts : List (WhereResultT ν)) : derefAll (ts.map some) = .ok ts := by
  induction ts with
  | nil => rfl
  | cons t ts ih =>
    rw [List.map_cons, derefAll, ih]
    rfl

theorem answered_append (F : Folding ρ) (exts exts' : List (RawResultT ν ρ)) :
    answered F (exts ++ exts') = answered F exts + answered F exts' := by
  unfold answered
  rw [List.map_append, List.sum_append]

/-- The number of steps tells which OR term has just finished. -/
theorem substep_term {m w k : Nat} (hk : k < w) (hbound : (m + 1) * (w + 1) < UINT32) :
    (m * (w + 1) + k + 1) % UINT32 % ((w + 1) % UINT32) = k + 1 ∧ (k + 1 + UINT32 - 1) % UINT32 = k := by
  rw [Nat.add_mul] at hbound
  have hw : (w + 1) % UINT32 = w + 1 := Nat.mod_eq_of_lt (by omega)
  have hstep : (m * (w + 1) + k + 1) % UINT32 = m * (w + 1) + (k + 1) := Nat.mod_eq_of_lt (by omega)
  have hprev : k + 1 + UINT32 - 1 = k + UINT32 := by omega
  rw [hw, hstep, Nat.mul_comm, Nat.mul_add_mod, hprev, Nat.add_mod_right]
  exact ⟨Nat.mod_eq_of_lt (by omega), Nat.mod_eq_of_lt (by omega)⟩

/-- After the SELECT the number of steps is a multiple again. -/
theorem substep_select {m w : Nat} (hbound : (m + 1) * (w + 1) < UINT32) :
    (m * (w + 1) + w + 1) % UINT32 % ((w + 1) % UINT32) = 0 := by
  rw [Nat.add_mul] at hbound
  have hw : (w + 1) % UINT32 = w + 1 := Nat.mod_eq_of_lt (by omega)
  have hstep : (m * (w + 1) + w + 1) % UINT32 = (m + 1) * (w + 1) := by
    rw [Nat.mod_eq_of_lt (by omega), Nat.add_mul]
    omega
  rw [hw, hstep]
  exact Nat.mul_mod_left ..

section

variable [LinearOrder ν] {inp : PipelineInput} {F : Folding ρ} {inst : Instance ν ρ}
  {runs : List (ChunkRun ν ρ)}

/-- The steps of a waiting instance, and the chunk it is in. -/
theorem Follows.underWay (h : Follows inp F inst runs) {f : Efn ν}
    (hf : inst.phase = .waiting f) :
    ∃ calls exts, UnderWay inp calls exts ∧ inst.calls = runs.flatMap ChunkRun.calls ++ calls ∧
      inst.exts = runs.flatMap ChunkRun.exts ++ exts := by
  have hphase := h.phase
  unfold AtPhase at hphase
  rw [hf] at hphase
  cases f with
  | QueryExecWhere chunk k =>
    obtain ⟨ts, rfl, hk, hcalls, hexts, -⟩ := hphase
    exact ⟨_, _, .terms chunk ts hk, hcalls, hexts⟩
  | QueryExec chunk info =>
    obtain ⟨ts, hlen, hor, hcalls, hexts, -⟩ := hphase
    exact ⟨_, _, .select chunk ts info hlen hor, hcalls, hexts⟩

/-- What one call of `QueryExec` achieves. -/
structure CallSpec (inp : PipelineInput) (F : Folding ρ) (inst : Instance ν ρ)
    (ext : RawResultT ν ρ) (total_rows : Nat) (next : Next ν) (out : Stage0Out ν ρ)
    (total_rows' : Nat) : Prop where
  follows : ∃ runs, Follows inp F (advance inst ext next out) runs
  claims : claimsOf (advance inst ext next out).calls = claimsOf inst.calls
  grows : F.size inst.out.result ≤ F.size out.result
  rows : total_rows' + F.size inst.out.result = total_rows + F.size out.result
  stop : next = .stop → out.ret_code = false ∨ inp.max_rows < total_rows

/-- An error ends the instance. -/
theorem queryExec_error (h : Follows inp F inst runs) {f : Efn ν} (hf : inst.phase = .waiting f)
    (ext : RawResultT ν ρ) (total_rows : Nat) :
    CallSpec inp F inst ext total_rows .stop { inst.out with ret_code := false } total_rows where
  follows := by
    obtain ⟨calls, exts, hunder, hcalls, hexts⟩ := h.underWay hf
    refine ⟨runs, h.valid, Or.inr ⟨rfl, calls, exts, ext, hunder, hcalls, ?_⟩,
      fun hrc => absurd hrc (by simp [advance]), ?_⟩
    · show inst.exts ++ [ext] = _
      rw [hexts]
    · show F.size inst.out.result ≤ answered F (inst.exts ++ [ext])
      rw [answered_append]
      exact Nat.le_add_right_of_le h.size
  claims := rfl
  grows := le_refl _
  rows := rfl
  stop _ := Or.inl rfl

/-- Without an error the number of steps decides. -/
theorem queryExec_eq {exts : List (RawResultT ν ρ)} {ext : RawResultT ν ρ} {res : Stage0Out ν ρ}
    (hgo : (res.ret_code && !ext.error) = true) {substep : Nat}
    (hsub : (exts.length + 1) % UINT32 % ((inp.wterms + 1) % UINT32) = substep) (parsed : Bool)
    (total_rows : Nat) :
    QueryExec inp F parsed exts ext res total_rows =
      if substep = inp.wterms then
        (startSelect inp ((substep + UINT32 - 1) % UINT32) ext res).map
          fun r => (r.1, r.2, total_rows)
      else if substep = 0 then finishChunk inp F parsed ext res total_rows
      else
        (setElem res.welem ((substep + UINT32 - 1) % UINT32) ext.wres).map fun welem =>
          (.call (.QueryExecWhere res.current_chunk substep), { res with welem := welem },
            total_rows) := by
  unfold QueryExec
  rw [if_neg (by rw [hgo]; decide)]
  simp only [hsub]

theorem startSelect_eq {i : Nat} {ext : RawResultT ν ρ} {res : Stage0Out ν ρ}
    {ts : List (WhereResultT ν)} (hset : setElem res.welem i ext.wres = .ok (ts.map some))
    (hwres : res.wresult = []) {info : WhereResultT ν} (hinfo : op_or ts = some info) :
    startSelect inp i ext res = .ok (.call (.QueryExec res.current_chunk info),
      { res with welem := List.replicate inp.wterms none, wresult := info }) := by
  unfold startSelect
  rw [hset]
  simp only [Bind.bind, Except.bind, derefAll_map_some, hwres, List.length_nil, ne_eq,
    not_true_eq_false, if_false, hinfo]

/-- The end of an OR term: the next one starts, or after the last the SELECT. -/
theorem queryExec_term (h : Follows inp F inst runs)
    (hbound : (runs.length + 1) * (inp.wterms + 1) < UINT32) {chunk k : Nat}
    (hf : inst.phase = .waiting (.QueryExecWhere chunk k)) (t : WhereResultT ν)
    (hrc : inst.out.ret_code = true) (parsed : Bool) (total_rows : Nat) :
    ∃ next out, QueryExec inp F parsed inst.exts (termResult t) inst.out total_rows =
        .ok (next, out, total_rows) ∧
      CallSpec inp F inst (termResult t) total_rows next out total_rows := by
  have hphase := h.phase
  unfold AtPhase at hphase
  rw [hf] at hphase
  obtain ⟨ts, rfl, hk, hcalls, hexts, hwelem, hwres, hcur⟩ := hphase
  subst hcur
  obtain ⟨hsub, hprev⟩ := substep_term hk hbound
  have hlen : inst.exts.length + 1 = runs.length * (inp.wterms + 1) + ts.length + 1 := by
    rw [hexts, List.length_append, length_exts_flatMap h.valid, List.length_map]
  rw [← hlen] at hsub
  have hset := setElem_next hk t
  rw [← hwelem] at hset
  have hsize : F.size inst.out.result ≤ answered F (inst.exts ++ [termResult t]) := by
    rw [answered_append]
    exact Nat.le_add_right_of_le h.size
  have hexts' : inst.exts ++ [termResult t] =
      runs.flatMap ChunkRun.exts ++ (ts ++ [t]).map termResult := by
    rw [hexts, List.map_append, List.append_assoc]
    rfl
  rw [queryExec_eq (by rw [hrc]; rfl) hsub, hprev]
  by_cases hlast : ts.length + 1 = inp.wterms
  · -- the last OR term
    obtain ⟨info, hinfo⟩ := op_or_eq_some (show ts ++ [t] ≠ [] by simp)
    rw [show inp.wterms - (ts.length + 1) = 0 by omega, List.replicate_zero,
      List.append_nil] at hset
    refine ⟨.call (.QueryExec inst.out.current_chunk info),
      { inst.out with welem := List.replicate inp.wterms none, wresult := info }, ?_, ?_⟩
    · rw [if_pos hlast, startSelect_eq hset hwres hinfo]
      rfl
    · refine ⟨⟨runs, h.valid, ?_, h.folded, hsize⟩, ?_, le_refl _, rfl, fun hstop => by cases hstop⟩
      · refine ⟨ts ++ [t], by simpa using hlast, hinfo, ?_, hexts', rfl, rfl⟩
        show inst.calls ++ [.QueryExec inst.out.current_chunk info] = _
        rw [hcalls, List.append_assoc, List.length_append]
        rfl
      · show claimsOf (inst.calls ++ [.QueryExec inst.out.current_chunk info]) = _
        rw [claimsOf_append]
        exact List.append_nil _
  · refine ⟨.call (.QueryExecWhere inst.out.current_chunk (ts.length + 1)),
      { inst.out with
        welem := (ts ++ [t]).map some ++ List.replicate (inp.wterms - (ts.length + 1)) none },
      ?_, ?_⟩
    · rw [if_neg hlast, if_neg (by omega), show (termResult t : RawResultT ν ρ).wres = some t from rfl,
        hset]
      rfl
    · refine ⟨⟨runs, h.valid, ?_, h.folded, hsize⟩, ?_, le_refl _, rfl, fun hstop => by cases hstop⟩
      · refine ⟨ts ++ [t], by simp, by omega, ?_, hexts', rfl, hwres, rfl⟩
        show inst.calls ++ [.QueryExecWhere inst.out.current_chunk (ts.length + 1)] = _
        rw [hcalls, List.append_assoc, ← whereCalls_succ]
      · show claimsOf (inst.calls ++ [.QueryExecWhere inst.out.current_chunk (ts.length + 1)]) = _
        rw [claimsOf_append]
        exact List.append_nil _

/-- The end of a SELECT: the output is folded in, unless that aborts. -/
theorem queryExec_select (hw : 1 ≤ inp.wterms) (h : Follows inp F inst runs)
    (hbound : (runs.length + 1) * (inp.wterms + 1) < UINT32) {chunk : Nat} {info : WhereResultT ν}
    (hf : inst.phase = .waiting (.QueryExec chunk info)) {ext : RawResultT ν ρ} {output : ρ}
    (hext : ext = { error := false, wres := none, res := some output })
    (hrc : inst.out.ret_code = true) (parsed : Bool) (total_rows : Nat) :
    QueryExec inp F parsed inst.exts ext inst.out total_rows = .error .merge ∨
      ∃ next out total_rows', QueryExec inp F parsed inst.exts ext inst.out total_rows =
          .ok (next, out, total_rows') ∧
        (answered F (inst.exts ++ [ext]) < UINT32 → total_rows + F.size output < UINT32 →
          CallSpec inp F inst ext total_rows next out total_rows') := by
  have hphase := h.phase
  unfold AtPhase at hphase
  rw [hf] at hphase
  obtain ⟨ts, hts, hor, hcalls, hexts, hwelem, hcur⟩ := hphase
  -- this call ends the chunk: all its terms have been asked, and then the SELECT
  have hlen : inst.exts.length + 1 = runs.length * (inp.wterms + 1) + inp.wterms + 1 := by
    rw [hexts, List.length_append, length_exts_flatMap h.valid, List.length_map, hts]
  have hsub := substep_select hbound
  rw [← hlen] at hsub
  have hans : answered F (inst.exts ++ [ext]) = answered F inst.exts + F.size output := by
    rw [answered_append, hext]
    simp [answered]
  have hexec : QueryExec inp F parsed inst.exts ext inst.out total_rows =
      finishChunk inp F parsed ext inst.out total_rows := by
    rw [queryExec_eq (by rw [hrc, hext]; rfl) hsub, if_neg (by omega), if_pos rfl]
  rw [hexec, finishChunk, hext]
  -- the output is folded in, or that aborts
  cases hfold : F.fold parsed inst.out.result output with
  | none =>
    simp only [hfold]
    exact Or.inl trivial
  | some r =>
    obtain ⟨rc, result⟩ := r
    simp only [hfold]
    refine Or.inr ⟨_, _, _, rfl, ?_⟩
    rw [← hext]
    intro hrows htotal
    obtain ⟨hge, hle⟩ := F.size_fold hfold
    have hsize := h.size
    -- the rows that are added, by subtraction of two sizes that fit
    have hadded : (F.size result + UINT32 - F.size inst.out.result % UINT32) % UINT32 =
        F.size result - F.size inst.out.result := by
      rw [Nat.mod_eq_of_lt (show F.size inst.out.result < UINT32 by omega),
        show F.size result + UINT32 - F.size inst.out.result =
          F.size result - F.size inst.out.result + UINT32 by omega, Nat.add_mod_right]
      exact Nat.mod_eq_of_lt (by omega)
    -- the chunk is one more run
    let r : ChunkRun ν ρ := { chunk := chunk, terms := ts, where_info := info, output := output }
    have hvalid : ∀ x ∈ runs ++ [r], x.Valid inp := by
      intro x hx
      rcases List.mem_append.mp hx with hx | hx
      · exact h.valid x hx
      · rw [List.mem_singleton.mp hx]
        exact ⟨hts, hor⟩
    have hcalls' : inst.calls = (runs ++ [r]).flatMap ChunkRun.calls := by
      rw [hcalls, List.flatMap_append, List.flatMap_singleton]
      rfl
    have hexts' : inst.exts ++ [ext] = (runs ++ [r]).flatMap ChunkRun.exts := by
      rw [hexts, hext, List.flatMap_append, List.flatMap_singleton, List.append_assoc]
      rfl
    have hfolded : rc = true → F.foldAll ((runs ++ [r]).map ChunkRun.output) = some result := by
      rintro rfl
      rw [List.map_append]
      exact Folding.foldAll_snoc (h.folded hrc) (F.fold_parsed hfold)
    have hsize' : F.size result ≤ answered F (inst.exts ++ [ext]) := by omega
    -- either it was the last chunk of the instance or the next one begins
    refine ⟨?_, ?_, hge, ?_, ?_⟩
    · refine ⟨runs ++ [r], hvalid, ?_, ?_, ?_⟩
      · split
        · exact Or.inl ⟨hcalls', hexts'⟩
        · exact ⟨hcalls', hexts', hwelem, rfl⟩
      · split
        · exact hfolded
        · exact hfolded
      · split
        · exact hsize'
        · exact hsize'
    · split
      · rfl
      · rfl
    · rw [hadded, Nat.mod_eq_of_lt (by omega)]
      show total_rows + (F.size result - F.size inst.out.result) + F.size inst.out.result =
        total_rows + F.size result
      omega
    · intro hstop
      refine Or.inr ?_
      by_contra hmax
      rw [if_neg hmax] at hstop
      cases hstop

/-- Any call of `QueryExec` on a waiting instance; the only fault is a merge
that aborts. -/
theorem queryExec_spec (hw : 1 ≤ inp.wterms) (h : Follows inp F inst runs)
    (hbound : (runs.length + 1) * (inp.wterms + 1) < UINT32) {f : Efn ν}
    (hf : inst.phase = .waiting f) {ext : RawResultT ν ρ} (hans : Answers f ext = true)
    (parsed : Bool) (total_rows : Nat) :
    QueryExec inp F parsed inst.exts ext inst.out total_rows = .error .merge ∨
      ∃ next out total_rows', QueryExec inp F parsed inst.exts ext inst.out total_rows =
          .ok (next, out, total_rows') ∧
        (answered F (inst.exts ++ [ext]) < UINT32 → total_rows + answered F [ext] < UINT32 →
          CallSpec inp F inst ext total_rows next out total_rows') := by
  by_cases hgo : (inst.out.ret_code && !ext.error) = true
  swap
  · have herr : (inst.out.ret_code && !ext.error) = false := by simpa using hgo
    refine Or.inr ⟨_, _, _, ?_, fun _ _ => queryExec_error h hf ext total_rows⟩
    unfold QueryExec
    rw [if_pos herr]
  obtain ⟨hrc, herr⟩ : inst.out.ret_code = true ∧ ext.error = false := by simpa using hgo
  obtain ⟨error, wres, res⟩ := ext
  simp only at herr
  subst herr
  cases f with
  | QueryExecWhere chunk k =>
    cases wres with
    | none => cases hans
    | some t =>
      cases res with
      | some output => cases hans
      | none =>
        obtain ⟨next, out, heq, hspec⟩ := queryExec_term h hbound hf t hrc parsed total_rows
        exact Or.inr ⟨next, out, total_rows, heq, fun _ _ => hspec⟩
  | QueryExec chunk info =>
    cases wres with
    | some t => cases hans
    | none =>
      cases res with
      | none => cases hans
      | some output =>
        have hone : answered F [({ error := false, wres := none, res := some output } :
            RawResultT ν ρ)] = F.size output := by
          simp [answered]
        rw [hone]
        exact queryExec_select hw h hbound hf rfl hrc parsed total_rows

end

-- ---------------------------------------------------------------------------
-- Whole runs
-- ---------------------------------------------------------------------------

theorem set_eq_of_getElem? {α : Type} {l : List α} {i : Nat} {a : α} (h : l[i]? = some a) :
    ∃ l₁ l₂, l = l₁ ++ a :: l₂ ∧ ∀ b, l.set i b = l₁ ++ b :: l₂ := by
  obtain ⟨hi, rfl⟩ := List.getElem?_eq_some_iff.mp h
  refine ⟨l.take i, l.drop (i + 1), ?_, fun b => List.set_eq_take_append_cons_drop.trans (if_pos hi)⟩
  rw [← List.drop_eq_getElem_cons hi, List.take_append_drop]

/-- What holds of all instances holds after one of them has been replaced. -/
theorem forall_mem_replace {α : Type} {P : α → Prop} {l₁ l₂ : List α} {a b : α}
    (h : ∀ x ∈ l₁ ++ a :: l₂, P x) (hb : P b) : ∀ x ∈ l₁ ++ b :: l₂, P x := by
  intro x hx
  rcases List.mem_append.mp hx with hx | hx
  · exact h x (List.mem_append_left _ hx)
  rcases List.mem_cons.mp hx with rfl | hx
  · exact hb
  · exact h x (List.mem_append_right _ (List.mem_cons_of_mem _ hx))

section

variable [LinearOrder ν] {inp : PipelineInput} {F : Folding ρ}

/-- Everything one step of a run can do. -/
theorem pipelineStep_inv {s s' : PipelineState ν ρ} {a : PipelineAction ν ρ}
    (h : pipelineStep inp F s a = some s') :
    ∃ i inst, s.insts[i]? = some inst ∧
      ((a = .start i ∧ inst.phase = .ready ∧ s' = { s with
          insts := s.insts.set i { inst with phase := .claiming, out := firstCall inp F } }) ∨
      (a = .claim i ∧ inst.phase = .claiming ∧ s' = { s with
          chunk_q := (s.chunk_q + 1) % UINT32,
          insts := s.insts.set i (claimChunk inp s.chunk_q inst) }) ∨
      ∃ f ext parsed, a = .finish i ext parsed ∧ inst.phase = .waiting f ∧ Answers f ext = true ∧
        ((∃ fault, QueryExec inp F parsed inst.exts ext inst.out s.total_rows = .error fault ∧
          s' = { s with fault := some fault }) ∨
        ∃ next out total_rows,
          QueryExec inp F parsed inst.exts ext inst.out s.total_rows =
            .ok (next, out, total_rows) ∧
          s' = { s with
            total_rows := total_rows, insts := s.insts.set i (advance inst ext next out) })) := by
  unfold pipelineStep at h
  split at h
  · cases h
  cases a with
  | start i =>
    obtain ⟨inst, hi, h⟩ := Option.bind_eq_some_iff.mp h
    split at h
    · rename_i hphase
      exact ⟨i, inst, hi, Or.inl ⟨rfl, hphase, (Option.some.inj h).symm⟩⟩
    · cases h
  | claim i =>
    obtain ⟨inst, hi, h⟩ := Option.bind_eq_some_iff.mp h
    split at h
    · rename_i hphase
      exact ⟨i, inst, hi, Or.inr (Or.inl ⟨rfl, hphase, (Option.some.inj h).symm⟩)⟩
    · cases h
  | finish i ext parsed =>
    obtain ⟨inst, hi, h⟩ := Option.bind_eq_some_iff.mp h
    split at h
    · rename_i f hphase
      split at h
      · rename_i hans
        refine ⟨i, inst, hi, Or.inr (Or.inr ⟨f, ext, parsed, rfl, hphase, hans, ?_⟩)⟩
        split at h
        · rename_i fault hexec
          exact Or.inl ⟨fault, hexec, (Option.some.inj h).symm⟩
        · rename_i next out total_rows hexec
          exact Or.inr ⟨next, out, total_rows, hexec, (Option.some.inj h).symm⟩
      · cases h
    · cases h

/-- The same, with the instance picked out of the list. -/
theorem pipelineStep_cases {s s' : PipelineState ν ρ} {a : PipelineAction ν ρ}
    (h : pipelineStep inp F s a = some s') :
    ∃ l₁ inst l₂, s.insts = l₁ ++ inst :: l₂ ∧
      ((inst.phase = .ready ∧ s' = { s with
          insts := l₁ ++ { inst with phase := .claiming, out := firstCall inp F } :: l₂ }) ∨
      (inst.phase = .claiming ∧ s' = { s with
          chunk_q := (s.chunk_q + 1) % UINT32,
          insts := l₁ ++ claimChunk inp s.chunk_q inst :: l₂ }) ∨
      ∃ f ext parsed, inst.phase = .waiting f ∧ Answers f ext = true ∧
        ((∃ fault, QueryExec inp F parsed inst.exts ext inst.out s.total_rows = .error fault ∧
          s' = { s with fault := some fault }) ∨
        ∃ next out total_rows,
          QueryExec inp F parsed inst.exts ext inst.out s.total_rows =
            .ok (next, out, total_rows) ∧
          s' = { s with
            total_rows := total_rows, insts := l₁ ++ advance inst ext next out :: l₂ })) := by
  obtain ⟨i, inst, hi, hcases⟩ := pipelineStep_inv h
  obtain ⟨l₁, l₂, hl, hset⟩ := set_eq_of_getElem? hi
  simp only [hset] at hcases
  refine ⟨l₁, inst, l₂, hl, ?_⟩
  rcases hcases with ⟨-, hstart⟩ | ⟨-, hclaim⟩ | ⟨f, ext, parsed, -, hfinish⟩
  · exact Or.inl hstart
  · exact Or.inr (Or.inl hclaim)
  · exact Or.inr (Or.inr ⟨f, ext, parsed, hfinish⟩)

def Instance.isStopped (inst : Instance ν ρ) : Bool :=
  match inst.phase with
  | .stopped => true
  | _ => false

/-- The invariant of every run. -/
structure PipelineInv (inp : PipelineInput) (F : Folding ρ) (s : PipelineState ν ρ) : Prop where
  tasks : s.insts.length = inp.max_tasks
  follows : ∀ inst ∈ s.insts, ∃ runs, Follows inp F inst runs
  claims : (s.insts.flatMap fun inst => claimsOf inst.calls).Perm
    (List.range (min s.chunk_q inp.chunks))
  rows : s.total_rows = (s.insts.map fun inst => F.size inst.out.result).sum
  fetched : s.chunk_q ≤ inp.chunks + s.insts.countP Instance.isStopped
  stops : ∀ inst ∈ s.insts, inst.isStopped = true → inst.out.ret_code = false ∨
    inp.chunks ≤ s.chunk_q ∨ inp.max_rows < s.total_rows
  fault : s.fault = none ∨ s.fault = some .merge

theorem pipelineInv_init (inp : PipelineInput) (F : Folding ρ) :
    PipelineInv inp F (pipeline (ν := ν) inp F).init := by
  have hmem : ∀ inst ∈ (pipeline (ν := ν) inp F).init.insts,
      inst = { phase := .ready, exts := [], calls := [], out := firstCall inp F } :=
    fun inst h => List.eq_of_mem_replicate h
  refine ⟨List.length_replicate, ?_, ?_, ?_, Nat.zero_le _, ?_, Or.inl rfl⟩
  · intro inst h
    rw [hmem inst h]
    refine ⟨[], by simp, ⟨rfl, rfl, rfl, rfl⟩, fun _ => rfl, ?_⟩
    exact le_of_eq F.size_empty
  · simp [pipeline, claimsOf]
  · simp [pipeline, firstCall, F.size_empty]
  · intro inst h hstop
    rw [hmem inst h] at hstop
    cases hstop

/-- Rows only ever add up. -/
theorem answeredRows_le {s s' : PipelineState ν ρ} {a : PipelineAction ν ρ}
    (h : pipelineStep inp F s a = some s') : answeredRows F s ≤ answeredRows F s' := by
  obtain ⟨l₁, inst, l₂, hl, hcases⟩ := pipelineStep_cases h
  unfold answeredRows
  rcases hcases with ⟨-, rfl⟩ | ⟨-, rfl⟩ | ⟨f, ext, parsed, -, -, ⟨fault, -, rfl⟩ |
    ⟨next, out, total_rows, -, rfl⟩⟩
  · simp only [hl, List.map_append, List.map_cons]
    exact le_refl _
  · have hexts : (claimChunk inp s.chunk_q inst).exts = inst.exts := by
      unfold claimChunk
      split <;> rfl
    simp only [hl, List.map_append, List.map_cons, hexts]
    exact le_refl _
  · exact le_refl _
  · have hexts : (advance inst ext next out).exts = inst.exts ++ [ext] := by
      unfold advance
      cases next <;> rfl
    simp only [hl, List.map_append, List.map_cons, List.sum_append, List.sum_cons, hexts,
      answered_append]
    omega

/-- The first call for an instance. -/
theorem pipelineInv_start {s : PipelineState ν ρ} (h : PipelineInv inp F s)
    {l₁ l₂ : List (Instance ν ρ)} {inst : Instance ν ρ} (hl : s.insts = l₁ ++ inst :: l₂)
    (hphase : inst.phase = .ready) :
    PipelineInv inp F { s with
      insts := l₁ ++ { inst with phase := .claiming, out := firstCall inp F } :: l₂ } := by
  obtain ⟨runs, hfol⟩ := h.follows inst (by rw [hl]; simp)
  have hat := hfol.phase
  unfold AtPhase at hat
  rw [hphase] at hat
  obtain ⟨rfl, hcalls, hexts, hout⟩ := hat
  obtain ⟨htasks, hfollows, hclaims, hrows, hfetched, hstops, hfault⟩ := h
  have hnot : inst.isStopped = false := by
    unfold Instance.isStopped
    rw [hphase]
  rw [hl] at htasks hfollows hclaims hrows hfetched hstops
  refine ⟨by simpa using htasks, forall_mem_replace hfollows ⟨[], by simp, ⟨hcalls, hexts, rfl, rfl⟩,
    fun _ => rfl, ?_⟩, by simpa using hclaims, ?_, ?_, ?_, hfault⟩
  · exact le_of_eq_of_le F.size_empty (Nat.zero_le _)
  · simp only [List.map_append, List.map_cons] at hrows ⊢
    rw [hrows, hout]
  · simp only [List.countP_append, List.countP_cons, hnot] at hfetched ⊢
    exact hfetched
  · exact forall_mem_replace hstops fun hstop => by cases hstop

/-- An access to `chunk_q`. -/
theorem pipelineInv_claim (hw : 1 ≤ inp.wterms) (htasks : inp.chunks + inp.max_tasks < UINT32)
    {s : PipelineState ν ρ} (h : PipelineInv inp F s) {l₁ l₂ : List (Instance ν ρ)}
    {inst : Instance ν ρ} (hl : s.insts = l₁ ++ inst :: l₂) (hphase : inst.phase = .claiming) :
    PipelineInv inp F { s with
      chunk_q := (s.chunk_q + 1) % UINT32, insts := l₁ ++ claimChunk inp s.chunk_q inst :: l₂ } := by
  obtain ⟨runs, hfol⟩ := h.follows inst (by rw [hl]; simp)
  have hat := hfol.phase
  unfold AtPhase at hat
  rw [hphase] at hat
  obtain ⟨hcalls, hexts, hwelem, hwres⟩ := hat
  obtain ⟨hlen, hfollows, hclaims, hrows, hfetched, hstops, hfault⟩ := h
  have hnot : inst.isStopped = false := by
    unfold Instance.isStopped
    rw [hphase]
  rw [hl] at hlen hfollows hclaims hrows hfetched hstops
  -- fewer instances have stopped than there are
  have hlt : (l₁ ++ inst :: l₂).countP Instance.isStopped < (l₁ ++ inst :: l₂).length :=
    List.countP_lt_length_iff.mpr ⟨inst, by simp, hnot⟩
  have hq : (s.chunk_q + 1) % UINT32 = s.chunk_q + 1 := Nat.mod_eq_of_lt (by omega)
  have hstops' : ∀ x ∈ l₁ ++ inst :: l₂, x.isStopped = true → x.out.ret_code = false ∨
      inp.chunks ≤ s.chunk_q + 1 ∨ inp.max_rows < s.total_rows := by
    intro x hx hstop
    rcases hstops x hx hstop with hrc | hchunks | hmax
    · exact Or.inl hrc
    · exact Or.inr (Or.inl (by omega))
    · exact Or.inr (Or.inr hmax)
  rw [hq]
  unfold claimChunk
  by_cases hchunk : s.chunk_q < inp.chunks
  · rw [if_pos hchunk]
    refine ⟨by simpa using hlen, forall_mem_replace hfollows ⟨runs, hfol.valid, ?_, hfol.folded,
      hfol.size⟩, ?_, ?_, ?_, forall_mem_replace hstops' (fun hstop => by cases hstop), hfault⟩
    · refine ⟨[], rfl, hw, ?_, by simpa using hexts, by simpa using hwelem, hwres, rfl⟩
      show inst.calls ++ _ = _
      rw [hcalls]
      rfl
    · -- the new claim is the next number
      have hmin : min (s.chunk_q + 1) inp.chunks = min s.chunk_q inp.chunks + 1 := by omega
      have hmin' : min s.chunk_q inp.chunks = s.chunk_q := by omega
      have hone : claimsOf (inst.calls ++ [.QueryExecWhere s.chunk_q 0]) =
          claimsOf inst.calls ++ [s.chunk_q] := claimsOf_append ..
      rw [hmin, List.range_succ, hmin']
      rw [hmin'] at hclaims
      simp only [List.flatMap_append, List.flatMap_cons, hone, List.append_assoc] at hclaims ⊢
      refine List.Perm.trans ?_ (hclaims.append_right [s.chunk_q])
      simp only [List.append_assoc]
      exact (List.Perm.append_left _ (List.Perm.append_left _ List.perm_append_comm))
    · simpa using hrows
    · simp only [List.countP_append, List.countP_cons, hnot] at hfetched ⊢
      show s.chunk_q + 1 ≤ _
      omega
  · rw [if_neg hchunk]
    have hpast : inp.chunks ≤ s.chunk_q + 1 := by omega
    refine ⟨by simpa using hlen, forall_mem_replace hfollows ⟨runs, hfol.valid,
      Or.inl ⟨hcalls, hexts⟩, hfol.folded, hfol.size⟩, ?_, by simpa using hrows, ?_,
      forall_mem_replace hstops' fun _ => Or.inr (Or.inl hpast), hfault⟩
    · have hmin : min (s.chunk_q + 1) inp.chunks = min s.chunk_q inp.chunks := by omega
      rw [hmin]
      simpa using hclaims
    · simp only [List.countP_append, List.countP_cons, hnot] at hfetched ⊢
      show s.chunk_q + 1 ≤ inp.chunks + (l₁.countP _ + (l₂.countP _ + if true = true then 1 else 0))
      simp only [if_true, Bool.false_eq_true, if_false] at hfetched ⊢
      omega

/-- The chunks an instance has finished are among those claimed. -/
theorem PipelineInv.length_runs_le (hw : 1 ≤ inp.wterms) {s : PipelineState ν ρ}
    (h : PipelineInv inp F s) {inst : Instance ν ρ} (hinst : inst ∈ s.insts)
    {runs : List (ChunkRun ν ρ)} (hfol : Follows inp F inst runs) {f : Efn ν}
    (hf : inst.phase = .waiting f) : runs.length ≤ inp.chunks := by
  obtain ⟨calls, exts, -, hcalls, -⟩ := hfol.underWay hf
  have hsub : (claimsOf inst.calls).length ≤
      (s.insts.flatMap fun inst => claimsOf inst.calls).length := by
    have hmem : claimsOf inst.calls ∈ s.insts.map fun inst => claimsOf inst.calls :=
      List.mem_map.mpr ⟨inst, hinst, rfl⟩
    rw [List.flatMap_def]
    exact (List.sublist_flatten_of_mem hmem).length_le
  rw [h.claims.length_eq, List.length_range, hcalls, claimsOf_append, List.length_append,
    claimsOf_flatMap hw hfol.valid, List.length_map] at hsub
  omega

/-- The end of a step. -/
theorem pipelineInv_finish {s : PipelineState ν ρ}
    (h : PipelineInv inp F s) {l₁ l₂ : List (Instance ν ρ)} {inst : Instance ν ρ}
    (hl : s.insts = l₁ ++ inst :: l₂) {f : Efn ν} (hf : inst.phase = .waiting f)
    {ext : RawResultT ν ρ} {next : Next ν} {out : Stage0Out ν ρ} {total_rows : Nat}
    (hspec : CallSpec inp F inst ext s.total_rows next out total_rows) :
    PipelineInv inp F { s with
      total_rows := total_rows, insts := l₁ ++ advance inst ext next out :: l₂ } := by
  obtain ⟨hlen, hfollows, hclaims, hrows, hfetched, hstops, hfault⟩ := h
  obtain ⟨hfol, hcl, hgrows, hadd, hstop⟩ := hspec
  have hnot : inst.isStopped = false := by
    unfold Instance.isStopped
    rw [hf]
  have hout : (advance inst ext next out).out = out := by
    unfold advance
    cases next <;> rfl
  rw [hl] at hlen hfollows hclaims hrows hfetched hstops
  have hstops' : ∀ x ∈ l₁ ++ inst :: l₂, x.isStopped = true → x.out.ret_code = false ∨
      inp.chunks ≤ s.chunk_q ∨ inp.max_rows < total_rows := by
    intro x hx hst
    rcases hstops x hx hst with hrc | hchunks | hmax
    · exact Or.inl hrc
    · exact Or.inr (Or.inl hchunks)
    · exact Or.inr (Or.inr (by omega))
  refine ⟨by simpa using hlen, forall_mem_replace hfollows hfol, ?_, ?_, ?_,
    forall_mem_replace hstops' ?_, hfault⟩
  · simp only [List.flatMap_append, List.flatMap_cons, hcl] at hclaims ⊢
    exact hclaims
  · simp only [List.map_append, List.map_cons, List.sum_append, List.sum_cons, hout] at hrows ⊢
    omega
  · simp only [List.countP_append, List.countP_cons, hnot] at hfetched ⊢
    refine le_trans hfetched ?_
    simp only [Bool.false_eq_true, if_false]
    omega
  · intro hst
    rw [hout]
    cases next with
    | call f => cases hst
    | claim => cases hst
    | stop =>
      rcases hstop rfl with hrc | hmax
      · exact Or.inl hrc
      · have hmore : inp.max_rows < total_rows := by omega
        exact Or.inr (Or.inr hmore)

theorem sum_size_le {insts : List (Instance ν ρ)}
    (h : ∀ inst ∈ insts, ∃ runs, Follows inp F inst runs) :
    (insts.map fun inst => F.size inst.out.result).sum ≤
      (insts.map fun inst => answered F inst.exts).sum := by
  induction insts with
  | nil => exact le_refl _
  | cons inst insts ih =>
    obtain ⟨runs, hfol⟩ := h inst (List.mem_cons_self ..)
    rw [List.map_cons, List.map_cons, List.sum_cons, List.sum_cons]
    exact Nat.add_le_add hfol.size (ih fun x hx => h x (List.mem_cons_of_mem _ hx))

/-- Every step keeps the invariant while the rows can be counted. -/
theorem pipelineInv_step (hw : 1 ≤ inp.wterms)
    (hbound : (inp.chunks + 1) * (inp.wterms + 1) < UINT32)
    (htasks : inp.chunks + inp.max_tasks < UINT32) {s s' : PipelineState ν ρ}
    {a : PipelineAction ν ρ} (h : PipelineInv inp F s) (hrows : answeredRows F s' < UINT32)
    (hstep : pipelineStep inp F s a = some s') : PipelineInv inp F s' := by
  obtain ⟨l₁, inst, l₂, hl, hcases⟩ := pipelineStep_cases hstep
  rcases hcases with ⟨hphase, rfl⟩ | ⟨hphase, rfl⟩ | ⟨f, ext, parsed, hf, hans, hcases⟩
  · exact pipelineInv_start h hl hphase
  · exact pipelineInv_claim hw htasks h hl hphase
  have hinst : inst ∈ s.insts := by rw [hl]; simp
  obtain ⟨runs, hfol⟩ := h.follows inst hinst
  have hruns := h.length_runs_le hw hinst hfol hf
  have hbound' : (runs.length + 1) * (inp.wterms + 1) < UINT32 :=
    lt_of_le_of_lt (Nat.mul_le_mul_right _ (by omega)) hbound
  rcases hcases with ⟨fault, hexec, rfl⟩ | ⟨next, out, total_rows, hexec, rfl⟩
  · -- the invariant does not look at a dead process
    have hmerge : fault = .merge := by
      rcases queryExec_spec hw hfol hbound' hf hans parsed s.total_rows with heq | ⟨_, _, _, heq, -⟩
      · rw [hexec] at heq
        injection heq
      · rw [hexec] at heq
        cases heq
    exact { h with fault := Or.inr (by rw [hmerge]) }
  · rcases queryExec_spec hw hfol hbound' hf hans parsed s.total_rows with heq | ⟨n, o, t, heq, hspec⟩
    · rw [hexec] at heq
      cases heq
    rw [hexec] at heq
    obtain ⟨rfl, rfl, rfl⟩ : next = n ∧ out = o ∧ total_rows = t := by
      simpa using heq
    have hexts : (advance inst ext next out).exts = inst.exts ++ [ext] := by
      unfold advance
      cases next <;> rfl
    have hsum := sum_size_le h.follows
    have htotal := h.rows
    simp only [answeredRows, hl, List.map_append, List.map_cons, List.sum_append, List.sum_cons,
      hexts, answered_append] at hrows hsum htotal
    refine pipelineInv_finish h hl hf (hspec ?_ ?_)
    · rw [answered_append]
      omega
    · omega

/-- What a query needs to run in order: at least one OR term, and counters wide
enough for its steps and chunks. -/
structure Runnable (inp : PipelineInput) : Prop where
  terms : 1 ≤ inp.wterms
  steps : (inp.chunks + 1) * (inp.wterms + 1) < UINT32
  tasks : inp.chunks + inp.max_tasks < UINT32

theorem pipeline_invariant (hinp : Runnable inp) {s : PipelineState ν ρ}
    (h : (pipeline inp F).Reachable s) (hrows : answeredRows F s < UINT32) :
    PipelineInv inp F s :=
  h.invariant_under (C := fun s => answeredRows F s < UINT32)
    (fun _ _ _ hstep hlt => lt_of_le_of_lt (answeredRows_le hstep) hlt) (pipelineInv_init inp F)
    (fun _ _ _ hinv hlt hstep => pipelineInv_step hinp.terms hinp.steps hinp.tasks hinv hlt hstep)
    hrows

/-- In every state: no chunk is claimed twice, each instance has run its chunks
in the order of the code and is at most one chunk ahead of its results, and no
access was out of range. -/
structure Orderly (inp : PipelineInput) (s : PipelineState ν ρ) : Prop where
  once : (s.insts.flatMap fun inst => claimsOf inst.calls).Nodup
  exists_chunk : ∀ inst ∈ s.insts, ∀ c ∈ claimsOf inst.calls, c < inp.chunks
  script : ∀ inst ∈ s.insts, ∃ (runs : List (ChunkRun ν ρ)) (calls : List (Efn ν))
    (exts rest : List (RawResultT ν ρ)), (∀ r ∈ runs, r.Valid inp ∧ IsUnion r.where_info r.terms) ∧
      inst.calls = runs.flatMap ChunkRun.calls ++ calls ∧
      inst.exts = runs.flatMap ChunkRun.exts ++ exts ++ rest ∧
      ((calls = [] ∧ exts = [] ∧ rest = []) ∨
        (UnderWay inp calls exts ∧ (rest = [] ∨ inst.out.ret_code = false)))
  inRange : ∀ fault, s.fault = some fault → fault = .merge

/-- The first stage is over. -/
def PipelineState.finished (s : PipelineState ν ρ) : Bool :=
  s.fault.isNone && s.insts.all Instance.isStopped

/-- Every chunk ran to its end in exactly one instance, and the result is the
merge of what the instances folded together. -/
def Complete (inp : PipelineInput) (F : Folding ρ) (s : PipelineState ν ρ) (parsed : Bool)
    (result : ρ) : Prop :=
  ∃ (plan : List (List (ChunkRun ν ρ))) (results : List ρ),
    (plan.flatten.map ChunkRun.chunk).Perm (List.range inp.chunks) ∧
    List.Forall₂ (fun (inst : Instance ν ρ) runs =>
      inst.calls = runs.flatMap ChunkRun.calls ∧ inst.exts = runs.flatMap ChunkRun.exts ∧
        ∀ r ∈ runs, r.Valid inp ∧ IsUnion r.where_info r.terms) s.insts plan ∧
    List.Forall₂ (fun runs r => F.foldAll (runs.map ChunkRun.output) = some r) plan results ∧
    F.merge parsed results = some (true, result)

theorem Follows.script {inst : Instance ν ρ} {runs : List (ChunkRun ν ρ)}
    (h : Follows inp F inst runs) :
    ∃ (calls : List (Efn ν)) (exts rest : List (RawResultT ν ρ)),
      inst.calls = runs.flatMap ChunkRun.calls ++ calls ∧
      inst.exts = runs.flatMap ChunkRun.exts ++ exts ++ rest ∧
      ((calls = [] ∧ exts = [] ∧ rest = []) ∨
        (UnderWay inp calls exts ∧ (rest = [] ∨ inst.out.ret_code = false))) := by
  have hat := h.phase
  unfold AtPhase at hat
  split at hat
  · obtain ⟨rfl, hcalls, hexts, -⟩ := hat
    exact ⟨[], [], [], by simpa using hcalls, by simpa using hexts, Or.inl ⟨rfl, rfl, rfl⟩⟩
  · obtain ⟨hcalls, hexts, -⟩ := hat
    exact ⟨[], [], [], by simpa using hcalls, by simpa using hexts, Or.inl ⟨rfl, rfl, rfl⟩⟩
  · rename_i hphase
    obtain ⟨calls, exts, hunder, hcalls, hexts⟩ := h.underWay hphase
    exact ⟨calls, exts, [], hcalls, by simpa using hexts, Or.inr ⟨hunder, Or.inl rfl⟩⟩
  · rename_i hphase
    obtain ⟨calls, exts, hunder, hcalls, hexts⟩ := h.underWay hphase
    exact ⟨calls, exts, [], hcalls, by simpa using hexts, Or.inr ⟨hunder, Or.inl rfl⟩⟩
  · rcases hat with ⟨hcalls, hexts⟩ | ⟨hrc, calls, exts, ext, hunder, hcalls, hexts⟩
    · exact ⟨[], [], [], by simpa using hcalls, by simpa using hexts, Or.inl ⟨rfl, rfl, rfl⟩⟩
    · exact ⟨calls, exts, [ext], hcalls, hexts, Or.inr ⟨hunder, Or.inr hrc⟩⟩

theorem valid_isUnion {runs : List (ChunkRun ν ρ)} (h : ∀ r ∈ runs, r.Valid inp) :
    ∀ r ∈ runs, r.Valid inp ∧ IsUnion r.where_info r.terms :=
  fun r hr => ⟨h r hr, op_or_isUnion (h r hr).union⟩

theorem PipelineInv.orderly {s : PipelineState ν ρ} (h : PipelineInv inp F s) : Orderly inp s where
  once := h.claims.nodup_iff.mpr List.nodup_range
  exists_chunk inst hinst c hc := by
    have hmem : c ∈ s.insts.flatMap fun inst => claimsOf inst.calls :=
      List.mem_flatMap.mpr ⟨inst, hinst, hc⟩
    have hlt := List.mem_range.mp (h.claims.mem_iff.mp hmem)
    omega
  script inst hinst := by
    obtain ⟨runs, hfol⟩ := h.follows inst hinst
    obtain ⟨calls, exts, rest, hscript⟩ := hfol.script
    exact ⟨runs, calls, exts, rest, valid_isUnion hfol.valid, hscript⟩
  inRange fault hfault := by
    rcases h.fault with hnone | hmerge
    · rw [hnone] at hfault
      cases hfault
    · rw [hmerge] at hfault
      exact (Option.some.inj hfault).symm

theorem exists_forall₂ {α ε : Type} {R : α → ε → Prop} {l : List α} (h : ∀ a ∈ l, ∃ b, R a b) :
    ∃ r, List.Forall₂ R l r := by
  induction l with
  | nil => exact ⟨[], .nil⟩
  | cons a l ih =>
    obtain ⟨b, hb⟩ := h a (List.mem_cons_self ..)
    obtain ⟨r, hr⟩ := ih fun x hx => h x (List.mem_cons_of_mem _ hx)
    exact ⟨b :: r, .cons hb hr⟩

/-- An instance that stopped without an error has finished all it claimed. -/
theorem Follows.stopped {inst : Instance ν ρ} {runs : List (ChunkRun ν ρ)}
    (h : Follows inp F inst runs) (hstop : inst.isStopped = true)
    (hrc : inst.out.ret_code = true) :
    inst.calls = runs.flatMap ChunkRun.calls ∧ inst.exts = runs.flatMap ChunkRun.exts := by
  have hphase : inst.phase = .stopped := by
    unfold Instance.isStopped at hstop
    split at hstop
    · assumption
    · cases hstop
  have hat := h.phase
  unfold AtPhase at hat
  rw [hphase] at hat
  rcases hat with hdone | ⟨hfalse, -⟩
  · exact hdone
  · rw [hrc] at hfalse
    cases hfalse

/-- The claims of instances that ran these chunks. -/
theorem claims_of_plan (hw : 1 ≤ inp.wterms) {insts : List (Instance ν ρ)}
    {plan : List (List (ChunkRun ν ρ))}
    (h : List.Forall₂ (fun (inst : Instance ν ρ) runs =>
      inst.calls = runs.flatMap ChunkRun.calls ∧ inst.exts = runs.flatMap ChunkRun.exts ∧
        ∀ r ∈ runs, r.Valid inp ∧ IsUnion r.where_info r.terms) insts plan) :
    (insts.flatMap fun inst => claimsOf inst.calls) = plan.flatten.map ChunkRun.chunk := by
  induction h with
  | nil => rfl
  | cons hd _ ih =>
    obtain ⟨hcalls, -, hvalid⟩ := hd
    rw [List.flatMap_cons, ih, hcalls, claimsOf_flatMap hw fun r hr => (hvalid r hr).1,
      List.flatten_cons, List.map_append]

omit [LinearOrder ν] in
theorem queryResp_eq_hundred_iff (m : Stage0Merge ρ) :
    QueryResp m = 100 ↔ m.overflow = false ∧ m.ret_code = true := by
  unfold QueryResp
  cases m.overflow <;> cases m.ret_code <;> decide

/-- Progress 100: nothing was left out. -/
theorem complete_of_progress (hw : 1 ≤ inp.wterms) {s : PipelineState ν ρ}
    (h : PipelineInv inp F s) (hrows : answeredRows F s < UINT32) (hfin : s.finished = true)
    {parsed : Bool} {m : Stage0Merge ρ}
    (hmerge : QueryMerge inp F parsed (s.insts.map fun inst => inst.out) = some m)
    (hprogress : QueryResp m = 100) : Complete inp F s parsed m.result := by
  rw [queryResp_eq_hundred_iff] at hprogress
  obtain ⟨-, hall⟩ : s.fault.isNone = true ∧ s.insts.all Instance.isStopped = true := by
    simpa [PipelineState.finished] using hfin
  have hstopped : ∀ inst ∈ s.insts, inst.isStopped = true := List.all_eq_true.mp hall
  unfold QueryMerge at hmerge
  simp only [List.length_map, List.map_map, List.all_map, Function.comp_def] at hmerge
  split at hmerge
  · cases hmerge
  rename_i hne
  split at hmerge
  · rw [← Option.some.inj hmerge] at hprogress
    cases hprogress.1
  rename_i hmax
  split at hmerge
  · rw [← Option.some.inj hmerge] at hprogress
    cases hprogress.2
  rename_i hcodes
  have hcodes : ∀ inst ∈ s.insts, inst.out.ret_code = true := by
    simpa using hcodes
  obtain ⟨⟨rc, result⟩, hres, rfl⟩ := Option.map_eq_some_iff.mp hmerge
  have hrc : rc = true := hprogress.2
  subst hrc
  -- no instance stopped early
  have hchunks : inp.chunks ≤ s.chunk_q := by
    obtain ⟨inst, hinst⟩ := List.exists_mem_of_length_pos (Nat.pos_of_ne_zero hne)
    rcases h.stops inst hinst (hstopped inst hinst) with hfalse | hchunks | hover
    · rw [hcodes inst hinst] at hfalse
      cases hfalse
    · exact hchunks
    · have hsum : (s.insts.map fun inst => F.size inst.out.result).sum < UINT32 :=
        lt_of_le_of_lt (sum_size_le h.follows) hrows
      rw [Nat.mod_eq_of_lt hsum, ← h.rows] at hmax
      exact absurd hover hmax
  obtain ⟨plan, hplan⟩ := exists_forall₂ (R := fun (inst : Instance ν ρ)
      (runs : List (ChunkRun ν ρ)) =>
      (inst.calls = runs.flatMap ChunkRun.calls ∧ inst.exts = runs.flatMap ChunkRun.exts ∧
        ∀ r ∈ runs, r.Valid inp ∧ IsUnion r.where_info r.terms) ∧
      F.foldAll (runs.map ChunkRun.output) = some inst.out.result) (l := s.insts) (by
    intro inst hinst
    obtain ⟨runs, hfol⟩ := h.follows inst hinst
    obtain ⟨hcalls, hexts⟩ := hfol.stopped (hstopped inst hinst) (hcodes inst hinst)
    exact ⟨runs, ⟨hcalls, hexts, valid_isUnion hfol.valid⟩, hfol.folded (hcodes inst hinst)⟩)
  have hscripts := hplan.imp fun _ _ hboth => hboth.1
  refine ⟨plan, s.insts.map fun inst => inst.out.result, ?_, hscripts, ?_, hres⟩
  · rw [← claims_of_plan hw hscripts]
    have hclaims := h.claims
    rwa [Nat.min_eq_right hchunks] at hclaims
  · exact List.forall₂_map_right_iff.mpr (List.Forall₂.flip (hplan.imp fun _ _ hboth => hboth.2))

theorem queryResp_cases (m : Stage0Merge ρ) :
    QueryResp m = 100 ∨ QueryResp m = - EIO ∨ QueryResp m = - ENOBUFS := by
  unfold QueryResp
  cases m.overflow <;> cases m.ret_code <;> decide

/-- In every run of a query with at least one OR term, whatever the interleaving
of its instances, the chunks are claimed and run in order; and once the first
stage is over, progress 100 means that every chunk was folded in exactly once. -/
theorem pipeline_complete (hinp : Runnable inp) {s : PipelineState ν ρ}
    (hreach : (pipeline inp F).Reachable s) (hrows : answeredRows F s < UINT32) :
    Orderly inp s ∧
      (s.finished = true → ∀ (parsed : Bool) (m : Stage0Merge ρ),
        QueryMerge inp F parsed (s.insts.map fun inst => inst.out) = some m →
          (QueryResp m = 100 → Complete inp F s parsed m.result) ∧
          (QueryResp m = 100 ∨ QueryResp m = - EIO ∨ QueryResp m = - ENOBUFS)) := by
  have hinv := pipeline_invariant hinp hreach hrows
  refine ⟨hinv.orderly, fun hfin parsed m hmerge => ⟨?_, queryResp_cases m⟩⟩
  exact complete_of_progress hinp.terms hinv hrows hfin hmerge

end

end

/-- Vectors of numbers, unsorted, to run the pipeline on examples. -/
def plainRows : Folding (List Nat) :=
  bufferFolding
    { sorted := false, ascending := true, limit := 0, sort_field_comparator := fun a b => a < b,
      sort := id, sort_perm := fun _ => List.Perm.refl _ } true

/-- One chunk with one OR term, in one instance. -/
def sampleInput : PipelineInput := { wterms := 1, chunks := 1, max_rows := 10, max_tasks := 1 }

def sampleRun : List (PipelineAction Nat (List Nat)) :=
  [.start 0, .claim 0, .finish 0 { error := false, wres := some [], res := none } true,
    .finish 0 { error := false, wres := none, res := some [7, 8] } true, .claim 0]

theorem pipeline_complete_sample :
    ∃ s, (pipeline sampleInput plainRows).run sampleRun = some s ∧
      Orderly sampleInput s ∧ Complete sampleInput plainRows s true [7, 8] := by
  obtain ⟨s, hs⟩ := Option.isSome_iff_exists.mp
    (show ((pipeline sampleInput plainRows).run sampleRun).isSome = true by decide)
  have hfin : ((pipeline sampleInput plainRows).run sampleRun).map PipelineState.finished =
    some true := by decide
  have hrows : ((pipeline sampleInput plainRows).run sampleRun).map (answeredRows plainRows) =
    some 2 := by decide
  have hmerge : ((pipeline sampleInput plainRows).run sampleRun).bind (fun s =>
      (QueryMerge sampleInput plainRows true (s.insts.map fun inst => inst.out)).map fun m =>
        (m.ret_code, m.overflow, m.result)) = some (true, false, [7, 8]) := by decide
  rw [hs] at hfin hrows hmerge
  obtain ⟨m, hm, hfields⟩ := Option.map_eq_some_iff.mp hmerge
  have hrows : answeredRows plainRows s = 2 := Option.some.inj hrows
  have hinp : Runnable sampleInput := ⟨by decide, by decide, by decide⟩
  have hclaim := pipeline_complete hinp (System.reachable_of_run hs) (by rw [hrows]; decide)
  obtain ⟨hcode, hover, hresult⟩ : m.ret_code = true ∧ m.overflow = false ∧ m.result = [7, 8] := by
    simpa using hfields
  have hprogress : QueryResp m = 100 := (queryResp_eq_hundred_iff m).mpr ⟨hover, hcode⟩
  have hcomplete := (hclaim.2 (Option.some.inj hfin) true m hm).1 hprogress
  exact ⟨s, hs, hclaim.1, hresult ▸ hcomplete⟩

/-- A WHERE without OR terms: `wterms` is 0, so the result of the first step is
taken for the last OR term and stored at index `-1` of an empty vector. -/
theorem no_terms_out_of_range :
    ¬ ∀ (inp : PipelineInput) (s : PipelineState Nat (List Nat)),
      (inp.chunks + 1) * (inp.wterms + 1) < UINT32 → inp.chunks + inp.max_tasks < UINT32 →
      (pipeline inp plainRows).Reachable s → answeredRows plainRows s < UINT32 → Orderly inp s := by
  intro hclaim
  have hfault : ((pipeline (ν := Nat) { sampleInput with wterms := 0 } plainRows).run
      [.start 0, .claim 0, .finish 0 { error := false, wres := some [], res := none } true]).map
      (fun s => (s.fault, answeredRows plainRows s)) = some (some .outOfRange, 0) := by decide
  obtain ⟨s, hs, hfields⟩ := Option.map_eq_some_iff.mp hfault
  obtain ⟨hout, hrows⟩ := Prod.mk.inj hfields
  have horderly := hclaim _ s (by decide) (by decide) (System.reachable_of_run hs)
    (by rw [hrows]; decide)
  cases horderly.inRange .outOfRange hout

end TfAnalytics.QueryEngine
