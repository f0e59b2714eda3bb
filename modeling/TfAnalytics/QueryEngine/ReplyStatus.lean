import TfAnalytics.QueryEngine.Pipeline

/-!
# Query engine — the status of a query

The status of a query is the last element of the redis list `REPLY:<qid>`.
Three parties write to it: `StartPipeline` pushes progress 15 after it has
started the pipeline, the instances push a progress for each chunk they claim,
and `QueryResp` pushes the final one (`QEOpServerProxy.cc`). The analytics API
takes the first element off the list and puts it back (`redis_query_start` in
`opserver.py`).

Nothing orders the 15 of `StartPipeline` and the final status by itself. What
does is `mutex_`: `StartPipeline` holds it to its end, and a WHERE step has to
take it in `AddAnalyticsQuery` before it answers. Without a chunk there is no
WHERE step.

* `replySystem`: the parties, the connection to redis and the list;
* `replyInv_step`: the invariant of every run;
* `status_stays_final`: with a chunk and a database the final status stays.
-/

namespace TfAnalytics.QueryEngine

open TfAnalytics.Lib

-- ---------------------------------------------------------------------------
-- The statuses
-- ---------------------------------------------------------------------------

/-- A status text, `{"progress":..., "lines":..., "count":...}`. -/
structure Status where
  progress : Int
  lines : Option Nat := none
  count : Option Nat := none
  deriving DecidableEq

def kMaxRowThreshold : Int := 10000

/-- `(int)rowsize`. -/
def asInt (rowsize : Nat) : Int :=
  if rowsize < 2 ^ 31 then rowsize else (rowsize : Int) - 2 ^ 32

/-- The rows of one line and those left over. -/
def fillLine (rowsize : Nat) : List String → List String × List String
  | [] => ([], [])
  | row :: rest =>
    if asInt rowsize < kMaxRowThreshold then
      let line := fillLine ((rowsize + row.utf8ByteSize) % UINT32) rest
      (row :: line.1, line.2)
    else ([], row :: rest)

/-- The lines `RESULT:<qid>:0`, `RESULT:<qid>:1` and so on. Each takes at least
one row, so there are no more lines than rows. -/
def resultLines : Nat → List String → List (List String)
  | 0, _ => []
  | _ + 1, [] => []
  | n + 1, row :: rest =>
    let line := fillLine 0 (row :: rest)
    line.1 :: resultLines n line.2

/-- What `QueryResp` pushes to `REPLY:<qid>`, in order, with the rows in their
JSON form. -/
def respStatuses {ρ : Type} (m : Stage0Merge ρ) (res : List String) : List Status :=
  if m.overflow then [{ progress := - ENOBUFS }]
  else if m.ret_code = false then [{ progress := - EIO }]
  else
    let rownum := (resultLines res.length res).length
    (List.range rownum).map (fun n => { progress := 90, lines := some n }) ++
      [{ progress := 100, lines := some rownum, count := some res.length }]

/-- `10 + (chunknum * 75)/inp.chunk_size.size()`. -/
def chunkProgress (inp : PipelineInput) (chunknum : Nat) : Status :=
  { progress := 10 + (chunknum * 75 % UINT32 / inp.chunks : Nat) }

/-- `redis_query_status`: the progress in the last element, `None` without one. -/
def redis_query_status (reply : List Status) : Option Int :=
  reply.getLast?.map fun chunk_resp => chunk_resp.progress

-- ---------------------------------------------------------------------------
-- The parties
-- ---------------------------------------------------------------------------

/-- `StartPipeline`. It holds `mutex_` until it is done. -/
inductive Starter where
  | preparing | started | done
  deriving DecidableEq

/-- `QueryResp`: what it has still to push; then the answer to its last push is
awaited, and then it is there. -/
inductive Resp where
  | idle
  | sending (rest : List Status)
  | awaiting (stat : Status)
  | done (stat : Status)

/-- `redis_query_start`, after it has queued the query. -/
inductive QueryStart where
  | waiting
  | holding (res : Status)
  | returned (progress : Option Int)

/-- An `RPUSH` to `REPLY:<qid>`. Only the last one of `QueryResp` is issued with
a handle to report back to. -/
structure Rpush where
  privdata : Bool
  stat : Status

structure ReplyState (ν ρ : Type) where
  pipe : PipelineState ν ρ
  starter : Starter
  /-- Instances that have claimed a chunk and not yet pushed its progress. -/
  unsent : List (Nat × Status)
  resp : Resp
  /-- Issued on the connection and not yet executed. -/
  conn : List Rpush
  /-- `REPLY:<qid>`. -/
  reply : List Status
  api : QueryStart

inductive ReplyAction (ν ρ : Type) where
  | start
  | startStatus
  | exec (a : PipelineAction ν ρ)
  | chunkStatus (i : Nat)
  | merge (parsed : Bool)
  | respond
  | execute
  | blpop
  | timeout
  | lpush

section

variable {ν ρ : Type}

/-- What has to have happened before an instance goes on: it has pushed the
progress of its chunk, and a WHERE step has been through `AddAnalyticsQuery`,
for which `mutex_` must be free. Without a database the step does not go there. -/
def mayExec (database : Bool) (s : ReplyState ν ρ) : PipelineAction ν ρ → Bool
  | .finish i _ _ =>
    s.unsent.all (fun p => p.1 != i) &&
      match s.pipe.insts[i]?.map Instance.phase with
      | some (.waiting (.QueryExecWhere _ _)) => !database || s.starter == .done
      | _ => true
  | _ => true

/-- The progress that a claim has to push. -/
def claimStatus (inp : PipelineInput) (chunk_q : Nat) : PipelineAction ν ρ → List (Nat × Status)
  | .claim i => if chunk_q < inp.chunks then [(i, chunkProgress inp chunk_q)] else []
  | _ => []

/-- One step of a run. -/
def replyStep [LinearOrder ν] (database : Bool) (inp : PipelineInput) (F : Folding ρ)
    (jsonify : ρ → List String) (s : ReplyState ν ρ) :
    ReplyAction ν ρ → Option (ReplyState ν ρ)
  | .start => if s.starter = .preparing then some { s with starter := .started } else none
  | .startStatus =>
    if s.starter = .started then
      some { s with starter := .done, conn := s.conn ++ [⟨false, { progress := 15 }⟩] }
    else none
  | .exec a =>
    if s.starter ≠ .preparing ∧ mayExec database s a = true then do
      let pipe ← pipelineStep inp F s.pipe a
      some { s with pipe := pipe, unsent := claimStatus inp s.pipe.chunk_q a ++ s.unsent }
    else none
  | .chunkStatus i => do
    let p ← s.unsent.find? fun p => p.1 == i
    some { s with
      unsent := s.unsent.filter (fun p => p.1 != i), conn := s.conn ++ [⟨false, p.2⟩] }
  | .merge parsed =>
    match s.resp with
    | .idle =>
      if s.pipe.finished = true then do
        let m ← QueryMerge inp F parsed (s.pipe.insts.map fun inst => inst.out)
        some { s with resp := .sending (respStatuses m (jsonify m.result)) }
      else none
    | _ => none
  | .respond =>
    match s.resp with
    | .sending [stat] => some { s with resp := .awaiting stat, conn := s.conn ++ [⟨true, stat⟩] }
    | .sending (stat :: rest) =>
      some { s with resp := .sending rest, conn := s.conn ++ [⟨false, stat⟩] }
    | _ => none
  | .execute =>
    match s.conn with
    | [] => none
    | c :: conn =>
      some { s with
        conn := conn, reply := s.reply ++ [c.stat],
        resp := if c.privdata then .done c.stat else s.resp }
  | .blpop =>
    match s.api, s.reply with
    | .waiting, stat :: reply => some { s with api := .holding stat, reply := reply }
    | _, _ => none
  | .timeout =>
    match s.api, s.reply with
    | .waiting, [] => some { s with api := .returned none }
    | _, _ => none
  | .lpush =>
    match s.api with
    | .holding stat =>
      some { s with api := .returned (some stat.progress), reply := stat :: s.reply }
    | _ => none

/-- A query from the moment `StartPipeline` has accepted it. -/
def replySystem [LinearOrder ν] (database : Bool) (inp : PipelineInput) (F : Folding ρ)
    (jsonify : ρ → List String) : System (ReplyState ν ρ) (ReplyAction ν ρ) where
  init :=
    { pipe := (pipeline inp F).init
      starter := .preparing
      unsent := []
      resp := .idle
      conn := []
      reply := []
      api := .waiting }
  step := replyStep database inp F jsonify

-- ---------------------------------------------------------------------------
-- The mutex
-- ---------------------------------------------------------------------------

/-- The pipeline while `StartPipeline` holds `mutex_`: no step has answered, and
the instance that claimed the first chunk waits for its WHERE. -/
structure Held (s : PipelineState ν ρ) : Prop where
  noSelect : ∀ inst ∈ s.insts, ∀ chunk info, inst.phase ≠ .waiting (.QueryExec chunk info)
  first : (s.chunk_q = 0 ∧ ∀ inst ∈ s.insts, inst.isStopped = false) ∨
    ∃ inst ∈ s.insts, ∃ f, inst.phase = .waiting f

theorem isStopped_of_phase {inst : Instance ν ρ} (h : inst.isStopped = true) :
    inst.phase = .stopped := by
  unfold Instance.isStopped at h
  split at h
  · assumption
  · cases h

theorem PipelineState.finished_iff (s : PipelineState ν ρ) :
    s.finished = true ↔ s.fault.isNone = true ∧ ∀ inst ∈ s.insts, inst.isStopped = true := by
  unfold PipelineState.finished
  rw [Bool.and_eq_true, List.all_eq_true]

theorem Held.not_finished {s : PipelineState ν ρ} (h : Held s) (hfin : s.finished = true) :
    s.insts = [] := by
  obtain ⟨-, hstopped⟩ := s.finished_iff.mp hfin
  rcases h.first with ⟨-, hnone⟩ | ⟨inst, hinst, f, hphase⟩
  · refine List.eq_nil_iff_forall_not_mem.mpr fun inst hinst => ?_
    have hfalse := hnone inst hinst
    rw [hstopped inst hinst] at hfalse
    cases hfalse
  · have hstop := isStopped_of_phase (hstopped inst hinst)
    rw [hphase] at hstop
    cases hstop

theorem claimChunk_phase (inp : PipelineInput) (chunknum : Nat) (inst : Instance ν ρ) :
    (claimChunk inp chunknum inst).phase =
      if chunknum < inp.chunks then .waiting (.QueryExecWhere chunknum 0) else .stopped := by
  unfold claimChunk
  split <;> rfl

theorem mem_replace_of_ne {α : Type} {l₁ l₂ : List α} {x a b : α} (h : x ∈ l₁ ++ a :: l₂)
    (hne : x ≠ a) : x ∈ l₁ ++ b :: l₂ := by
  rcases List.mem_append.mp h with h | h
  · exact List.mem_append_left _ h
  · rcases List.mem_cons.mp h with h | h
    · exact absurd h hne
    · exact List.mem_append_right _ (List.mem_cons_of_mem _ h)

-- ---------------------------------------------------------------------------
-- The list
-- ---------------------------------------------------------------------------

/-- A status that ends the query. -/
def Status.Final (stat : Status) : Prop := stat.progress = 100 ∨ stat.progress < 0

theorem respStatuses_getLast (m : Stage0Merge ρ) (res : List String) :
    ∃ stat, (respStatuses m res).getLast? = some stat ∧ stat.progress = QueryResp m := by
  unfold respStatuses QueryResp
  split
  · exact ⟨_, rfl, rfl⟩
  split
  · exact ⟨_, rfl, rfl⟩
  · exact ⟨_, List.getLast?_concat, rfl⟩

theorem respStatuses_final (m : Stage0Merge ρ) (res : List String) :
    ∃ stat, (respStatuses m res).getLast? = some stat ∧ stat.Final := by
  obtain ⟨stat, hlast, hprogress⟩ := respStatuses_getLast m res
  refine ⟨stat, hlast, ?_⟩
  unfold Status.Final
  rw [hprogress]
  rcases queryResp_cases m with h | h | h <;> rw [h] <;> decide

/-- As long as the API has not taken its status, there are `n` in the list or on
their way to it. -/
def Pending (n : Nat) (s : ReplyState ν ρ) : Prop :=
  s.api = .waiting → n ≤ s.reply.length + s.conn.length

/-- Nobody waits for these commands. -/
def Plain (conn : List Rpush) : Prop := ∀ c ∈ conn, c.privdata = false

/-- The list and the connection, for each stage of `QueryResp`. -/
def ListInv (s : ReplyState ν ρ) : Prop :=
  match s.resp with
  | .idle => Plain s.conn ∧ (s.starter = .done → Pending 1 s)
  | .sending rest =>
    Plain s.conn ∧ Pending 1 s ∧ ∃ stat, rest.getLast? = some stat ∧ stat.Final
  | .awaiting stat =>
    (∃ conn, s.conn = conn ++ [⟨true, stat⟩] ∧ Plain conn) ∧ Pending 2 s ∧ stat.Final
  | .done stat => s.conn = [] ∧ s.reply.getLast? = some stat ∧ Pending 2 s ∧ stat.Final

/-- The invariant of every run. -/
structure ReplyInv (s : ReplyState ν ρ) : Prop where
  held : s.starter ≠ .done → Held s.pipe
  unsent : ∀ p ∈ s.unsent, ∃ inst f, s.pipe.insts[p.1]? = some inst ∧ inst.phase = .waiting f
  merged : s.resp ≠ .idle → s.starter = .done ∧ s.pipe.finished = true
  list : ListInv s

/-- As long as an instance runs, `QueryResp` does not. -/
theorem ReplyInv.idle {s : ReplyState ν ρ} (h : ReplyInv s) {inst : Instance ν ρ}
    (hinst : inst ∈ s.pipe.insts) (hphase : inst.phase ≠ .stopped) : s.resp = .idle := by
  by_contra hne
  obtain ⟨-, hfin⟩ := h.merged hne
  exact hphase (isStopped_of_phase ((s.pipe.finished_iff.mp hfin).2 inst hinst))

theorem ReplyInv.idle_of_starter {s : ReplyState ν ρ} (h : ReplyInv s)
    (hstarter : s.starter ≠ .done) : s.resp = .idle := by
  by_contra hne
  exact hstarter (h.merged hne).1

theorem listInv_of_idle {s : ReplyState ν ρ} (h : s.resp = .idle) (hplain : Plain s.conn)
    (hpending : s.starter = .done → Pending 1 s) : ListInv s := by
  unfold ListInv
  rw [h]
  exact ⟨hplain, hpending⟩

theorem ListInv.idle {s : ReplyState ν ρ} (hlist : ListInv s) (h : s.resp = .idle) :
    Plain s.conn ∧ (s.starter = .done → Pending 1 s) := by
  unfold ListInv at hlist
  rwa [h] at hlist

theorem Plain.append {conn : List Rpush} (h : Plain conn) (stat : Status) :
    Plain (conn ++ [⟨false, stat⟩]) := by
  intro c hc
  rcases List.mem_append.mp hc with hc | hc
  · exact h c hc
  · rw [List.mem_singleton.mp hc]

/-- `StartPipeline` pushes its status and lets the mutex go. -/
theorem replyInv_startStatus {s : ReplyState ν ρ} (h : ReplyInv s)
    (hstarter : s.starter = .started) :
    ReplyInv { s with starter := .done, conn := s.conn ++ [⟨false, { progress := 15 }⟩] } := by
  have hidle : s.resp = .idle := h.idle_of_starter (by rw [hstarter]; decide)
  refine ⟨fun hne => absurd rfl hne, h.unsent, fun hne => absurd hidle hne, ?_⟩
  refine listInv_of_idle hidle ((h.list.idle hidle).1.append _) fun _ _ => ?_
  rw [List.length_append, List.length_singleton]
  omega

theorem replyInv_chunkStatus {s : ReplyState ν ρ} (h : ReplyInv s) {i : Nat} {p : Nat × Status}
    (hp : p ∈ s.unsent) :
    ReplyInv { s with
      unsent := s.unsent.filter (fun p => p.1 != i), conn := s.conn ++ [⟨false, p.2⟩] } := by
  obtain ⟨inst, f, hinst, hwait⟩ := h.unsent p hp
  have hidle : s.resp = .idle := by
    refine h.idle (List.mem_of_getElem? hinst) fun hstop => ?_
    rw [hwait] at hstop
    cases hstop
  obtain ⟨hplain, hpending⟩ := h.list.idle hidle
  refine ⟨h.held, fun q hq => h.unsent q (List.mem_filter.mp hq).1, fun hne => absurd hidle hne, ?_⟩
  refine listInv_of_idle hidle (hplain.append _) fun hdone hapi => ?_
  have hone := hpending hdone hapi
  show 1 ≤ s.reply.length + (s.conn ++ [(⟨false, p.2⟩ : Rpush)]).length
  rw [List.length_append]
  omega

/-- The first stage is only over when `StartPipeline` is. -/
theorem replyInv_merge {inp : PipelineInput} {F : Folding ρ} {jsonify : ρ → List String}
    {s : ReplyState ν ρ} (h : ReplyInv s) (hidle : s.resp = .idle)
    (hfin : s.pipe.finished = true) {parsed : Bool} {m : Stage0Merge ρ}
    (hmerge : QueryMerge inp F parsed (s.pipe.insts.map fun inst => inst.out) = some m) :
    ReplyInv { s with resp := .sending (respStatuses m (jsonify m.result)) } := by
  have hdone : s.starter = .done := by
    by_contra hne
    rw [(h.held hne).not_finished hfin] at hmerge
    cases hmerge
  obtain ⟨hplain, hpending⟩ := h.list.idle hidle
  exact ⟨h.held, h.unsent, fun _ => ⟨hdone, hfin⟩,
    ⟨hplain, hpending hdone, respStatuses_final m (jsonify m.result)⟩⟩

/-- `QueryResp` pushes a line that is not the last. -/
theorem replyInv_respond {s : ReplyState ν ρ} (h : ReplyInv s) {stat next : Status}
    {rest : List Status} (hresp : s.resp = .sending (stat :: next :: rest)) :
    ReplyInv { s with resp := .sending (next :: rest), conn := s.conn ++ [⟨false, stat⟩] } := by
  have hlist := h.list
  unfold ListInv at hlist
  rw [hresp] at hlist
  obtain ⟨hplain, hpending, last, hlast, hfinal⟩ := hlist
  refine ⟨h.held, h.unsent, fun _ => h.merged (by rw [hresp]; exact nofun), ?_⟩
  refine ⟨hplain.append _, fun hapi => ?_, last, hlast, hfinal⟩
  have hone := hpending hapi
  show 1 ≤ s.reply.length + (s.conn ++ [(⟨false, stat⟩ : Rpush)]).length
  rw [List.length_append]
  omega

/-- `QueryResp` pushes the final status. -/
theorem replyInv_respond_last {s : ReplyState ν ρ} (h : ReplyInv s) {stat : Status}
    (hresp : s.resp = .sending [stat]) :
    ReplyInv { s with resp := .awaiting stat, conn := s.conn ++ [⟨true, stat⟩] } := by
  have hlist := h.list
  unfold ListInv at hlist
  rw [hresp] at hlist
  obtain ⟨hplain, hpending, last, hlast, hfinal⟩ := hlist
  obtain rfl : stat = last := Option.some.inj hlast
  refine ⟨h.held, h.unsent, fun _ => h.merged (by rw [hresp]; exact nofun), ?_⟩
  refine ⟨⟨s.conn, rfl, hplain⟩, fun hapi => ?_, hfinal⟩
  have hone := hpending hapi
  show 2 ≤ s.reply.length + (s.conn ++ [(⟨true, stat⟩ : Rpush)]).length
  rw [List.length_append, List.length_singleton]
  omega

/-- A command moves from the connection to the list. -/
theorem pending_execute {s : ReplyState ν ρ} {c : Rpush} {conn : List Rpush}
    (hconn : s.conn = c :: conn) {n : Nat} (h : Pending n s) (resp : Resp) :
    Pending n { s with conn := conn, reply := s.reply ++ [c.stat], resp := resp } := by
  intro hapi
  have hle := h hapi
  rw [hconn, List.length_cons] at hle
  show n ≤ (s.reply ++ [c.stat]).length + conn.length
  rw [List.length_append, List.length_singleton]
  omega

/-- Redis executes a command nobody waits for. -/
theorem replyInv_execute {s : ReplyState ν ρ} (h : ReplyInv s) {c : Rpush} {conn : List Rpush}
    (hconn : s.conn = c :: conn) (hc : c.privdata = false) :
    ReplyInv { s with conn := conn, reply := s.reply ++ [c.stat] } := by
  refine ⟨h.held, h.unsent, h.merged, ?_⟩
  have hlist := h.list
  have htail : Plain s.conn → Plain conn := fun hplain d hd =>
    hplain d (hconn ▸ List.mem_cons_of_mem _ hd)
  unfold ListInv at hlist ⊢
  cases hresp : s.resp with
  | idle =>
    rw [hresp] at hlist
    exact ⟨htail hlist.1, fun hdone => pending_execute hconn (hlist.2 hdone) s.resp⟩
  | sending rest =>
    rw [hresp] at hlist
    exact ⟨htail hlist.1, pending_execute hconn hlist.2.1 s.resp, hlist.2.2⟩
  | awaiting stat =>
    rw [hresp] at hlist
    obtain ⟨⟨before, heq, hplain⟩, hpending, hfinal⟩ := hlist
    refine ⟨?_, pending_execute hconn hpending s.resp, hfinal⟩
    rw [hconn] at heq
    cases before with
    | nil =>
      -- the final command is not one of these
      rw [(List.cons.inj heq).1] at hc
      cases hc
    | cons d before =>
      exact ⟨before, (List.cons.inj heq).2, fun e he => hplain e (List.mem_cons_of_mem _ he)⟩
  | done stat =>
    rw [hresp, hconn] at hlist
    cases hlist.1

/-- Redis executes the last push of `QueryResp`. -/
theorem replyInv_execute_last {s : ReplyState ν ρ} (h : ReplyInv s) {c : Rpush}
    {conn : List Rpush} (hconn : s.conn = c :: conn) (hc : c.privdata = true) :
    ReplyInv { s with conn := conn, reply := s.reply ++ [c.stat], resp := .done c.stat } := by
  have hmem : c ∈ s.conn := hconn ▸ List.mem_cons_self ..
  have hno : ¬ Plain s.conn := by
    intro hplain
    rw [hplain c hmem] at hc
    cases hc
  have hlist := h.list
  unfold ListInv at hlist
  cases hresp : s.resp with
  | idle =>
    rw [hresp] at hlist
    exact absurd hlist.1 hno
  | sending rest =>
    rw [hresp] at hlist
    exact absurd hlist.1 hno
  | awaiting stat =>
    rw [hresp] at hlist
    obtain ⟨⟨before, heq, hplain⟩, hpending, hfinal⟩ := hlist
    rw [hconn] at heq
    cases before with
    | nil =>
      obtain ⟨rfl, rfl⟩ := List.cons.inj heq
      refine ⟨h.held, h.unsent, fun _ => h.merged (by rw [hresp]; exact nofun), ?_⟩
      exact ⟨rfl, List.getLast?_concat, pending_execute hconn hpending _, hfinal⟩
    | cons d before =>
      rw [(List.cons.inj heq).1, hplain d (List.mem_cons_self ..)] at hc
      cases hc
  | done stat =>
    rw [hresp, hconn] at hlist
    cases hlist.1

/-- What the API does to the list does not matter as long as the last element
stays. -/
theorem replyInv_api {s : ReplyState ν ρ} (h : ReplyInv s) {api : QueryStart}
    {reply : List Status} (hapi : api ≠ .waiting)
    (hlast : ∀ stat, s.resp = .done stat → reply.getLast? = some stat) :
    ReplyInv { s with api := api, reply := reply } := by
  refine ⟨h.held, h.unsent, h.merged, ?_⟩
  have hlist := h.list
  have hpending : ∀ n, Pending n { s with api := api, reply := reply } :=
    fun n hwait => absurd hwait hapi
  unfold ListInv at hlist ⊢
  cases hresp : s.resp with
  | idle =>
    rw [hresp] at hlist
    exact ⟨hlist.1, fun _ => hpending 1⟩
  | sending rest =>
    rw [hresp] at hlist
    exact ⟨hlist.1, hpending 1, hlist.2.2⟩
  | awaiting stat =>
    rw [hresp] at hlist
    exact ⟨hlist.1, hpending 2, hlist.2.2⟩
  | done stat =>
    rw [hresp] at hlist
    exact ⟨hlist.1, hlast stat hresp, hpending 2, hlist.2.2.2⟩

theorem ReplyInv.last {s : ReplyState ν ρ} (h : ReplyInv s) {stat : Status}
    (hresp : s.resp = .done stat) :
    s.conn = [] ∧ s.reply.getLast? = some stat ∧ Pending 2 s ∧ stat.Final := by
  have hlist := h.list
  unfold ListInv at hlist
  rwa [hresp] at hlist

/-- The API takes the first status. There is another one behind it when the
final one is there. -/
theorem replyInv_blpop {s : ReplyState ν ρ} (h : ReplyInv s) {stat : Status}
    {reply : List Status} (hapi : s.api = .waiting) (hreply : s.reply = stat :: reply) :
    ReplyInv { s with api := .holding stat, reply := reply } := by
  refine replyInv_api h nofun fun last hresp => ?_
  obtain ⟨hconn, hlast, hpending, -⟩ := h.last hresp
  have htwo := hpending hapi
  rw [hreply] at hlast htwo
  rw [hconn] at htwo
  cases reply with
  | nil =>
    simp only [List.length_cons, List.length_nil] at htwo
    omega
  | cons stat' reply => rwa [List.getLast?_cons_cons] at hlast

theorem replyInv_lpush {s : ReplyState ν ρ} (h : ReplyInv s) {stat : Status} :
    ReplyInv { s with api := .returned (some stat.progress), reply := stat :: s.reply } := by
  refine replyInv_api h nofun fun last hresp => ?_
  obtain ⟨-, hlast, -⟩ := h.last hresp
  cases hreply : s.reply with
  | nil =>
    rw [hreply] at hlast
    cases hlast
  | cons stat' reply => rwa [List.getLast?_cons_cons, ← hreply]

-- ---------------------------------------------------------------------------
-- Runs
-- ---------------------------------------------------------------------------

section

variable [LinearOrder ν] {inp : PipelineInput} {F : Folding ρ} {jsonify : ρ → List String}

theorem held_init (inp : PipelineInput) (F : Folding ρ) :
    Held (pipeline (ν := ν) inp F).init := by
  have hready : ∀ inst ∈ (pipeline (ν := ν) inp F).init.insts, inst.phase = .ready := by
    intro inst h
    rw [List.eq_of_mem_replicate h]
  refine ⟨fun inst h chunk info hphase => ?_, Or.inl ⟨rfl, fun inst h => ?_⟩⟩
  · rw [hready inst h] at hphase
    cases hphase
  · unfold Instance.isStopped
    rw [hready inst h]

/-- The first call and the claims leave it so. -/
theorem held_step (hchunks : 1 ≤ inp.chunks) {s s' : PipelineState ν ρ} {a : PipelineAction ν ρ}
    (h : Held s) (hnot : ∀ i ext parsed, a ≠ .finish i ext parsed)
    (hstep : pipelineStep inp F s a = some s') : Held s' := by
  obtain ⟨i, inst, hi, hcases⟩ := pipelineStep_inv hstep
  obtain ⟨l₁, l₂, hl, hset⟩ := set_eq_of_getElem? hi
  obtain ⟨hselect, hfirst⟩ := h
  rw [hl] at hselect hfirst
  rcases hcases with ⟨-, hphase, rfl⟩ | ⟨-, hphase, rfl⟩ | ⟨f, ext, parsed, ha, -⟩
  · rw [hset]
    refine ⟨forall_mem_replace hselect (fun _ _ hwait => nomatch hwait), ?_⟩
    rcases hfirst with ⟨hq, hnone⟩ | ⟨w, hw, f, hwait⟩
    · exact Or.inl ⟨hq, forall_mem_replace hnone rfl⟩
    · have hne : w ≠ inst := fun heq => by rw [heq, hphase] at hwait; cases hwait
      exact Or.inr ⟨w, mem_replace_of_ne hw hne, f, hwait⟩
  · rw [hset]
    have hnew := claimChunk_phase inp s.chunk_q inst
    refine ⟨forall_mem_replace hselect fun chunk info hwait => ?_, ?_⟩
    · rw [hnew] at hwait
      split at hwait <;> cases hwait
    rcases hfirst with ⟨hq, -⟩ | ⟨w, hw, f, hwait⟩
    · rw [hq, if_pos (by omega)] at hnew
      exact Or.inr ⟨_, by simp [hq], _, hnew⟩
    · have hne : w ≠ inst := fun heq => by rw [heq, hphase] at hwait; cases hwait
      exact Or.inr ⟨w, mem_replace_of_ne hw hne, f, hwait⟩
  · exact absurd ha (hnot i ext parsed)

/-- While the mutex is held no step answers. -/
theorem not_finish {s : ReplyState ν ρ} {pipe : PipelineState ν ρ} {a : PipelineAction ν ρ}
    (h : Held s.pipe) (hstarter : s.starter ≠ .done) (hmay : mayExec true s a = true)
    (hstep : pipelineStep inp F s.pipe a = some pipe) :
    ∀ i ext parsed, a ≠ .finish i ext parsed := by
  intro i ext parsed ha
  obtain ⟨j, inst, hj, hcases⟩ := pipelineStep_inv hstep
  subst ha
  rcases hcases with ⟨ha, -⟩ | ⟨ha, -⟩ | ⟨f, ext', parsed', ha, hphase, -⟩
  · cases ha
  · cases ha
  injection ha with hij
  subst hij
  cases f with
  | QueryExecWhere chunk k =>
    simp [mayExec, hj, hphase, hstarter] at hmay
  | QueryExec chunk info =>
    exact h.noSelect inst (List.mem_of_getElem? hj) chunk info hphase

theorem replyInv_init (database : Bool) (inp : PipelineInput) (F : Folding ρ)
    (jsonify : ρ → List String) : ReplyInv (replySystem (ν := ν) database inp F jsonify).init where
  held _ := held_init inp F
  unsent p hp := by cases hp
  merged hne := absurd rfl hne
  list := listInv_of_idle rfl (fun c hc => nomatch hc) (fun hdone => nomatch hdone)

/-- An instance that has a status to push does not move. -/
theorem waiting_stays {database : Bool} {s : ReplyState ν ρ} {pipe : PipelineState ν ρ}
    {a : PipelineAction ν ρ} (hmay : mayExec database s a = true)
    (hstep : pipelineStep inp F s.pipe a = some pipe) {p : Nat × Status} (hp : p ∈ s.unsent)
    {inst : Instance ν ρ} (hinst : s.pipe.insts[p.1]? = some inst) {f : Efn ν}
    (hwait : inst.phase = .waiting f) : pipe.insts[p.1]? = some inst := by
  obtain ⟨i, inst', hi, hcases⟩ := pipelineStep_inv hstep
  have hne : i ≠ p.1 := by
    intro heq
    rw [heq, hinst] at hi
    obtain rfl := Option.some.inj hi
    rcases hcases with ⟨-, hphase, -⟩ | ⟨-, hphase, -⟩ | ⟨f', ext, parsed, rfl, -⟩
    · rw [hwait] at hphase
      cases hphase
    · rw [hwait] at hphase
      cases hphase
    · unfold mayExec at hmay
      have hother := List.all_eq_true.mp (Bool.and_eq_true_iff.mp hmay).1 p hp
      rw [heq] at hother
      simp at hother
  rcases hcases with ⟨-, -, rfl⟩ | ⟨-, -, rfl⟩ | ⟨f', ext, parsed, -, -, -, ⟨fault, -, rfl⟩ |
    ⟨next, out, total_rows, -, rfl⟩⟩
  · rw [List.getElem?_set_ne hne, hinst]
  · rw [List.getElem?_set_ne hne, hinst]
  · exact hinst
  · rw [List.getElem?_set_ne hne, hinst]

/-- A claim that has a status to push waits for the WHERE. -/
theorem claim_waits {s s' : PipelineState ν ρ} {a : PipelineAction ν ρ}
    (hstep : pipelineStep inp F s a = some s') {p : Nat × Status}
    (hp : p ∈ claimStatus inp s.chunk_q a) :
    ∃ inst f, s'.insts[p.1]? = some inst ∧ inst.phase = .waiting f := by
  obtain ⟨i, inst, hi, hcases⟩ := pipelineStep_inv hstep
  rcases hcases with ⟨rfl, -⟩ | ⟨rfl, -, rfl⟩ | ⟨f, ext, parsed, rfl, -⟩
  · cases hp
  · change p ∈ if s.chunk_q < inp.chunks then [(i, chunkProgress inp s.chunk_q)] else [] at hp
    by_cases hlt : s.chunk_q < inp.chunks
    · rw [if_pos hlt] at hp
      obtain rfl := List.mem_singleton.mp hp
      have hlen := (List.getElem?_eq_some_iff.mp hi).1
      refine ⟨_, .QueryExecWhere s.chunk_q 0, List.getElem?_set_self hlen, ?_⟩
      rw [claimChunk_phase, if_pos hlt]
    · rw [if_neg hlt] at hp
      cases hp
  · cases hp

theorem replyInv_exec (hchunks : 1 ≤ inp.chunks) {s : ReplyState ν ρ} {pipe : PipelineState ν ρ}
    {a : PipelineAction ν ρ} (h : ReplyInv s) (hmay : mayExec true s a = true)
    (hstep : pipelineStep inp F s.pipe a = some pipe) :
    ReplyInv { s with pipe := pipe, unsent := claimStatus inp s.pipe.chunk_q a ++ s.unsent } := by
  have hidle : s.resp = .idle := by
    obtain ⟨i, inst, hi, hcases⟩ := pipelineStep_inv hstep
    refine h.idle (List.mem_of_getElem? hi) fun hstop => ?_
    rcases hcases with ⟨-, hphase, -⟩ | ⟨-, hphase, -⟩ | ⟨f, ext, parsed, -, hphase, -⟩ <;>
    · rw [hstop] at hphase
      cases hphase
  refine ⟨fun hstarter => ?_, fun p hp => ?_, fun hne => absurd hidle hne, ?_⟩
  · have hheld := h.held hstarter
    exact held_step hchunks hheld (not_finish hheld hstarter hmay hstep) hstep
  · rcases List.mem_append.mp hp with hp | hp
    · exact claim_waits hstep hp
    · obtain ⟨inst, f, hinst, hwait⟩ := h.unsent p hp
      exact ⟨inst, f, waiting_stays hmay hstep hp hinst hwait, hwait⟩
  · obtain ⟨hplain, hpending⟩ := h.list.idle hidle
    exact listInv_of_idle hidle hplain hpending

/-- Every step keeps the invariant. -/
theorem replyInv_step (hchunks : 1 ≤ inp.chunks) {s s' : ReplyState ν ρ} {a : ReplyAction ν ρ}
    (h : ReplyInv s) (hstep : replyStep true inp F jsonify s a = some s') : ReplyInv s' := by
  cases a with
  | start =>
    simp only [replyStep] at hstep
    split at hstep
    · rename_i hstarter
      obtain rfl := Option.some.inj hstep
      have hne : s.starter ≠ .done := by rw [hstarter]; decide
      have hidle := h.idle_of_starter hne
      -- the pipeline starts, and the list is as it was
      refine ⟨fun _ => h.held hne, h.unsent, fun hresp => absurd hidle hresp, ?_⟩
      exact listInv_of_idle hidle (h.list.idle hidle).1 nofun
    · cases hstep
  | startStatus =>
    simp only [replyStep] at hstep
    split at hstep
    · rename_i hstarter
      obtain rfl := Option.some.inj hstep
      exact replyInv_startStatus h hstarter
    · cases hstep
  | exec a =>
    simp only [replyStep] at hstep
    split at hstep
    · rename_i hguard
      -- a step of the pipeline; nothing is sent
      obtain ⟨pipe, hpipe, hstep⟩ := Option.bind_eq_some_iff.mp hstep
      obtain rfl := Option.some.inj hstep
      exact replyInv_exec hchunks h hguard.2 hpipe
    · cases hstep
  | chunkStatus i =>
    -- the status of a chunk goes out
    obtain ⟨p, hp, hstep⟩ := Option.bind_eq_some_iff.mp hstep
    obtain rfl := Option.some.inj hstep
    exact replyInv_chunkStatus h (List.mem_of_find?_eq_some hp)
  | merge parsed =>
    simp only [replyStep] at hstep
    split at hstep
    · rename_i hidle
      split at hstep
      · rename_i hfin
        obtain ⟨m, hm, hstep⟩ := Option.bind_eq_some_iff.mp hstep
        obtain rfl := Option.some.inj hstep
        exact replyInv_merge h hidle hfin hm
      · cases hstep
    · cases hstep
  | respond =>
    simp only [replyStep] at hstep
    split at hstep
    · -- the last status and the ones before it
      rename_i stat hresp
      obtain rfl := Option.some.inj hstep
      exact replyInv_respond_last h hresp
    · rename_i stat rest hne hresp
      obtain rfl := Option.some.inj hstep
      cases rest with
      | nil => exact absurd rfl hne
      | cons next rest => exact replyInv_respond h hresp
    · cases hstep
  | execute =>
    simp only [replyStep] at hstep
    split at hstep
    · cases hstep
    · rename_i c conn hconn
      obtain rfl := Option.some.inj hstep
      -- only the last connection of a request tells the requester
      cases hc : c.privdata with
      | false => exact replyInv_execute h hconn hc
      | true => exact replyInv_execute_last h hconn hc
  | blpop =>
    simp only [replyStep] at hstep
    split at hstep
    · rename_i stat reply hapi hreply
      obtain rfl := Option.some.inj hstep
      exact replyInv_blpop h hapi hreply
    · cases hstep
  | timeout =>
    simp only [replyStep] at hstep
    split at hstep
    · -- a wait that times out changes no list
      rename_i hapi hreply
      obtain rfl := Option.some.inj hstep
      exact replyInv_api h nofun fun stat hresp => (h.last hresp).2.1
    · cases hstep
  | lpush =>
    simp only [replyStep] at hstep
    split at hstep
    · rename_i stat hapi
      obtain rfl := Option.some.inj hstep
      exact replyInv_lpush h
    · cases hstep

/-- What it takes for a step to move `QueryResp`. -/
theorem replyStep_resp {database : Bool} {s s' : ReplyState ν ρ} {a : ReplyAction ν ρ}
    (hstep : replyStep database inp F jsonify s a = some s') :
    s'.resp = s.resp ∨ s.resp = .idle ∨ (∃ rest, s.resp = .sending rest) ∨ s.conn ≠ [] := by
  cases a with
  | start | startStatus =>
    simp only [replyStep] at hstep
    split at hstep
    · obtain rfl := Option.some.inj hstep
      exact Or.inl rfl
    · cases hstep
  | exec a =>
    simp only [replyStep] at hstep
    split at hstep
    · obtain ⟨pipe, -, hstep⟩ := Option.bind_eq_some_iff.mp hstep
      obtain rfl := Option.some.inj hstep
      exact Or.inl rfl
    · cases hstep
  | chunkStatus i =>
    obtain ⟨p, -, hstep⟩ := Option.bind_eq_some_iff.mp hstep
    obtain rfl := Option.some.inj hstep
    exact Or.inl rfl
  | merge parsed =>
    simp only [replyStep] at hstep
    split at hstep
    · exact Or.inr (Or.inl ‹_›)
    · cases hstep
  | respond =>
    simp only [replyStep] at hstep
    split at hstep
    · exact Or.inr (Or.inr (Or.inl ⟨_, ‹_›⟩))
    · exact Or.inr (Or.inr (Or.inl ⟨_, ‹_›⟩))
    · cases hstep
  | execute =>
    simp only [replyStep] at hstep
    split at hstep
    · cases hstep
    · rename_i hconn
      exact Or.inr (Or.inr (Or.inr (by rw [hconn]; exact List.cons_ne_nil _ _)))
  | blpop | timeout | lpush =>
    simp only [replyStep] at hstep
    split at hstep
    · obtain rfl := Option.some.inj hstep
      exact Or.inl rfl
    · cases hstep

/-- Once redis has the final status, `QueryResp` has nothing more to push. -/
theorem done_stays {database : Bool} {s s' : ReplyState ν ρ} {a : ReplyAction ν ρ}
    (h : ReplyInv s) {stat : Status} (hresp : s.resp = .done stat)
    (hstep : replyStep database inp F jsonify s a = some s') : s'.resp = .done stat := by
  rcases replyStep_resp hstep with hsame | hidle | ⟨rest, hsending⟩ | hconn
  · rw [hsame, hresp]
  · rw [hresp] at hidle
    cases hidle
  · rw [hresp] at hsending
    cases hsending
  · exact absurd (h.last hresp).1 hconn

theorem done_stays_run (hchunks : 1 ≤ inp.chunks) {s s' : ReplyState ν ρ}
    {actions : List (ReplyAction ν ρ)} (h : ReplyInv s) {stat : Status}
    (hresp : s.resp = .done stat)
    (hrun : actions.foldlM (replyStep true inp F jsonify) s = some s') :
    ReplyInv s' ∧ s'.resp = .done stat := by
  induction actions generalizing s with
  | nil =>
    obtain rfl := Option.some.inj hrun
    exact ⟨h, hresp⟩
  | cons a actions ih =>
    rw [List.foldlM_cons] at hrun
    obtain ⟨s₁, hstep, hrun⟩ := Option.bind_eq_some_iff.mp hrun
    exact ih (replyInv_step hchunks h hstep) (done_stays h hresp hstep) hrun

/-- For a query with a chunk, on an engine with a database: once redis has the
final status, every later `redis_query_status` reports it, whatever the order of
the steps before and after. -/
theorem status_stays_final {database : Bool} (hdatabase : database = true)
    (hchunks : 1 ≤ inp.chunks) {s : ReplyState ν ρ}
    (hreach : (replySystem database inp F jsonify).Reachable s) {stat : Status}
    (hresp : s.resp = .done stat) {actions : List (ReplyAction ν ρ)} {s' : ReplyState ν ρ}
    (hrun : actions.foldlM (replySystem database inp F jsonify).step s = some s') :
    stat.Final ∧ redis_query_status s'.reply = some stat.progress := by
  subst hdatabase
  have hinv : ReplyInv s :=
    hreach.invariant (replyInv_init true inp F jsonify) fun _ _ _ h hs => replyInv_step hchunks h hs
  obtain ⟨hinv', hresp'⟩ := done_stays_run hchunks hinv hresp hrun
  obtain ⟨-, hlast, -, hfinal⟩ := hinv'.last hresp'
  refine ⟨hfinal, ?_⟩
  unfold redis_query_status
  rw [hlast]
  rfl

end

end

/-- Rows of numbers, as JSON texts. -/
def plainJson (rows : List Nat) : List String := rows.map Nat.repr

/-- The run of the pipeline example among the other parties. The API takes the
status of the first claim at once. -/
def sampleActions : List (ReplyAction Nat (List Nat)) :=
  .start :: (sampleRun.take 2).map .exec ++ [.chunkStatus 0, .execute, .blpop, .startStatus] ++
    (sampleRun.drop 2).map .exec ++
    [.merge true, .respond, .respond, .execute, .execute, .execute]

/-- The API puts its status back after the final one has arrived. -/
theorem status_stays_final_sample :
    ∃ s s', (replySystem true sampleInput plainRows plainJson).run sampleActions = some s ∧
      [ReplyAction.lpush].foldlM (replySystem true sampleInput plainRows plainJson).step s =
        some s' ∧
      redis_query_status s'.reply = some 100 := by
  have hfinal : ((replySystem true sampleInput plainRows plainJson).run sampleActions).map
      (fun s => match s.resp with | .done stat => some stat.progress | _ => none) =
        some (some 100) := by decide
  have hlast : (((replySystem true sampleInput plainRows plainJson).run sampleActions).bind
      ([ReplyAction.lpush].foldlM (replySystem true sampleInput plainRows plainJson).step)).isSome =
        true := by decide
  obtain ⟨s, hs, hprogress⟩ := Option.map_eq_some_iff.mp hfinal
  rw [hs] at hlast
  obtain ⟨s', hs'⟩ := Option.isSome_iff_exists.mp hlast
  split at hprogress
  · rename_i stat hresp
    have hstays := status_stays_final rfl (by decide) (System.reachable_of_run hs) hresp hs'
    rw [Option.some.inj hprogress] at hstays
    exact ⟨s, s', hs, hs', hstays.2⟩
  · cases hprogress

/-- Without a chunk the pipeline can be over before `StartPipeline` is: its
status comes last and stays. -/
theorem status_after_final :
    ¬ ∀ (inp : PipelineInput) (s : ReplyState Nat (List Nat)) (stat : Status),
      (replySystem true inp plainRows plainJson).Reachable s → s.resp = .done stat →
        redis_query_status s.reply = some stat.progress := by
  intro hclaim
  have hrun : ((replySystem (ν := Nat) true { sampleInput with chunks := 0 } plainRows plainJson).run
      [.start, .exec (.start 0), .exec (.claim 0), .merge true, .respond, .execute, .startStatus,
        .execute]).map (fun s => (match s.resp with | .done stat => some stat.progress | _ => none,
          redis_query_status s.reply)) = some (some 100, some 15) := by decide
  obtain ⟨s, hs, hfields⟩ := Option.map_eq_some_iff.mp hrun
  obtain ⟨hresp, hstatus⟩ := Prod.mk.inj hfields
  split at hresp
  · rename_i stat hdone
    have hsame := hclaim _ s stat (System.reachable_of_run hs) hdone
    rw [hstatus, Option.some.inj hresp] at hsame
    cases hsame
  · cases hresp

end TfAnalytics.QueryEngine
