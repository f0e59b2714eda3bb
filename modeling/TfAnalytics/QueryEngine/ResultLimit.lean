import TfAnalytics.QueryEngine.Pipeline
import TfAnalytics.QueryEngine.Slicing
import Mathlib.Algebra.Order.BigOperators.Group.Finset

/-!
# Query engine — the row limit

The limit of a query is applied in three places. `PostProcessingQuery::process_query`
cuts the output of each chunk (except for a parallelized flow series query), and the
two `QueryFinalMerge` cut the result. Whether there is a final merge depends on
the table: for stats, session and flow queries on the SELECT, which asks for no
merge when it names `T`; for the others on the request having a SORT or a LIMIT,
unless the query is not parallelized.

Without a final merge the instances' results are put together as they are.

* `answered_of_run`: what each chunk answered, in every run;
* `size_of_complete`: without a merge every row of every chunk is in the result;
* `limit_holds_iff`: exactly when the result keeps to the limit.
-/

namespace TfAnalytics.QueryEngine

open TfAnalytics.Lib

-- ---------------------------------------------------------------------------
-- get_query_details
-- ---------------------------------------------------------------------------

def is_map_output (table : String) : Bool :=
  is_stat_table_query table || is_session_query table || is_flow_query table

/-- `AnalyticsQuery::merge_needed`: set for a request with a SORT or a LIMIT, and
cleared again when the query is not parallelized. -/
def merge_needed (table : String) (sort_op limit : Bool) : Bool :=
  (sort_op || limit) && can_parallelize_query table

/-- The merge of a query on vectors of rows. -/
def PostProcessing.merge_needed {ω : Type} (p : PostProcessing ω) (table : String) : Bool :=
  QueryEngine.merge_needed table p.sorted (p.limit ≠ 0)

def StatsSelect.IsMergeNeeded (S : StatsSelect) : Bool := !S.isT_

/-- The number of chunks is that of the chunk list of the query. -/
def Prepared (table : String) (inp : PipelineInput) : Prop :=
  ∃ (env : Env) (total_parallel_batches fuel : Nat) (window : Nat × Nat) (sizes : List Nat),
    window.2 < 2 ^ 64 ∧
    (sliceWindow env table 0 total_parallel_batches window).chunk_sizes fuel = some sizes ∧
    inp.chunks = sizes.length

-- ---------------------------------------------------------------------------
-- PostProcessingQuery::process_query
-- ---------------------------------------------------------------------------

/-- Filter, sort and cut a vector of rows. -/
def PostProcessing.process_query {ω : Type} (p : PostProcessing ω) (table : String)
    (filter : ω → Bool) (raw_result : List ω) : List ω :=
  let filtered := raw_result.filter filter
  let ordered :=
    if p.sorted then if p.ascending then p.sort filtered else (p.sort filtered.reverse).reverse
    else filtered
  let limit := StatsSelect.processQueryLimit table (can_parallelize_query table) p.limit
  if limit ≠ 0 then ordered.take limit else ordered

namespace StatsSelect

variable {δ : Type} [LinearOrder δ]

/-- The rows the filter keeps. It looks at the columns that are not aggregated. -/
def filterRows (filter : StatMap δ → Bool) (mresult_ : MapBuf δ) : MapBuf δ :=
  ⟨mresult_.entries.filter fun e => filter e.2.1, mresult_.sorted.filter _⟩

/-- Filter and cut a multimap. -/
def process_query (table : String) (limit : Nat) (filter : StatMap δ → Bool)
    (mresult_ : MapBuf δ) : MapBuf δ :=
  applyLimit (processQueryLimit table (can_parallelize_query table) limit)
    (filterRows filter mresult_)

end StatsSelect

-- ---------------------------------------------------------------------------
-- What the chunks answer
-- ---------------------------------------------------------------------------

section Answers

variable {ν ρ : Type}

/-- The SELECT of a chunk, if it succeeds, answers with the output of the chunk. -/
def SelectAnswers (output : Nat → ρ) (s : PipelineState ν ρ) : PipelineAction ν ρ → Prop
  | .finish i ext _ => ∀ inst chunk where_info, s.insts[i]? = some inst →
      inst.phase = .waiting (.QueryExec chunk where_info) → ext.error = false →
      ext.res = some (output chunk)
  | _ => True

/-- The calls of an instance and the answers it got, one for each but the last
when the instance waits. -/
structure Answered (output : Nat → ρ) (inst : Instance ν ρ) : Prop where
  outputs : ∀ chunk where_info ext, (Efn.QueryExec chunk where_info, ext) ∈ inst.calls.zip inst.exts →
    ext.error = false → ext.res = some (output chunk)
  pending : match inst.phase with
    | .waiting f => ∃ done, inst.calls = done ++ [f] ∧ done.length = inst.exts.length
    | _ => inst.calls.length = inst.exts.length

variable {output : Nat → ρ} {inst : Instance ν ρ}

theorem Answered.settled (h : Answered output inst) (hphase : ∀ f, inst.phase ≠ .waiting f) :
    inst.calls.length = inst.exts.length := by
  have hpending := h.pending
  split at hpending
  · rename_i f hf
    exact absurd hf (hphase f)
  · exact hpending

theorem Answered.waiting (h : Answered output inst) {f : Efn ν} (hf : inst.phase = .waiting f) :
    ∃ done, inst.calls = done ++ [f] ∧ done.length = inst.exts.length := by
  have hpending := h.pending
  rw [hf] at hpending
  exact hpending

/-- Calls without an answer are not paired. -/
theorem zip_append_left {α β : Type} {l : List α} {r : List β} (h : l.length = r.length)
    (l' : List α) : (l ++ l').zip r = l.zip r := by
  conv_lhs => rw [← List.append_nil r]
  rw [List.zip_append h, List.zip_nil_right, List.append_nil]

theorem Answered.claim (h : Answered output inst) (hphase : inst.phase = .claiming)
    (inp : PipelineInput) (chunknum : Nat) : Answered output (claimChunk inp chunknum inst) := by
  have hlen := h.settled (by rw [hphase]; exact fun f => nofun)
  unfold claimChunk
  split
  · refine ⟨?_, inst.calls, rfl, hlen⟩
    intro chunk where_info ext hmem
    rw [zip_append_left hlen] at hmem
    exact h.outputs chunk where_info ext hmem
  · exact ⟨h.outputs, hlen⟩

theorem Answered.advance (h : Answered output inst) {f : Efn ν} (hf : inst.phase = .waiting f)
    {ext : RawResultT ν ρ} (hext : ∀ chunk where_info, f = .QueryExec chunk where_info →
      ext.error = false → ext.res = some (output chunk)) (next : Next ν) (out : Stage0Out ν ρ) :
    Answered output (advance inst ext next out) := by
  obtain ⟨done, hcalls, hlen⟩ := h.waiting hf
  have hlen' : inst.calls.length = (inst.exts ++ [ext]).length := by
    rw [hcalls, List.length_append, List.length_append, hlen]
    rfl
  have hold : inst.calls.zip inst.exts = done.zip inst.exts := by
    rw [hcalls, zip_append_left hlen]
  have hnew : inst.calls.zip (inst.exts ++ [ext]) = done.zip inst.exts ++ [(f, ext)] := by
    rw [hcalls, List.zip_append hlen]
    rfl
  have houtputs : ∀ chunk where_info ext',
      (Efn.QueryExec chunk where_info, ext') ∈ inst.calls.zip (inst.exts ++ [ext]) →
      ext'.error = false → ext'.res = some (output chunk) := by
    intro chunk where_info ext' hmem herror
    rw [hnew, ← hold, List.mem_append] at hmem
    rcases hmem with hmem | hmem
    · exact h.outputs chunk where_info ext' hmem herror
    · obtain ⟨hcall, rfl⟩ := Prod.mk.inj (List.mem_singleton.mp hmem)
      exact hext chunk where_info hcall.symm herror
  cases next with
  | call g =>
    refine ⟨?_, inst.calls, rfl, hlen'⟩
    intro chunk where_info ext' hmem
    rw [show (QueryEngine.advance inst ext (.call g) out).calls.zip
      (QueryEngine.advance inst ext (.call g) out).exts = inst.calls.zip (inst.exts ++ [ext]) from
      zip_append_left hlen' [g]] at hmem
    exact houtputs chunk where_info ext' hmem
  | claim => exact ⟨houtputs, hlen'⟩
  | stop => exact ⟨houtputs, hlen'⟩

variable [LinearOrder ν] {inp : PipelineInput} {F : Folding ρ}

theorem answered_step {s s' : PipelineState ν ρ} {a : PipelineAction ν ρ}
    (h : ∀ inst ∈ s.insts, Answered output inst) (hok : SelectAnswers output s a)
    (hstep : pipelineStep inp F s a = some s') : ∀ inst ∈ s'.insts, Answered output inst := by
  obtain ⟨i, inst, hi, hcases⟩ := pipelineStep_inv hstep
  obtain ⟨l₁, l₂, hl, hset⟩ := set_eq_of_getElem? hi
  have hinst : Answered output inst := h inst (by rw [hl]; simp)
  rw [hl] at h
  simp only [hset] at hcases
  rcases hcases with ⟨-, hphase, rfl⟩ | ⟨-, hphase, rfl⟩ | ⟨f, ext, parsed, rfl, hphase, -,
    ⟨fault, -, rfl⟩ | ⟨next, out, total_rows, -, rfl⟩⟩
  · exact forall_mem_replace h ⟨hinst.outputs, hinst.settled (by rw [hphase]; exact fun f => nofun)⟩
  · exact forall_mem_replace h (hinst.claim hphase inp s.chunk_q)
  · exact hl ▸ h
  · refine forall_mem_replace h (hinst.advance hphase ?_ next out)
    rintro chunk where_info rfl herror
    exact hok inst chunk where_info hi hphase herror

/-- In every run each SELECT that succeeded answered with the output of its chunk. -/
theorem answered_of_run {s : PipelineState ν ρ}
    (h : (pipeline inp F).ReachableVia (SelectAnswers output) s) :
    ∀ inst ∈ s.insts, Answered output inst := by
  refine h.invariant (P := fun s => ∀ inst ∈ s.insts, Answered output inst) ?_ ?_
  · intro inst hinst
    rw [List.eq_of_mem_replicate hinst]
    exact ⟨fun _ _ _ hmem => by simp at hmem, rfl⟩
  · intro s a s' hall hok hstep
    exact answered_step hall hok hstep

-- ---------------------------------------------------------------------------
-- Results that are only put together
-- ---------------------------------------------------------------------------

omit [LinearOrder ν] in
theorem select_mem_zip {runs : List (ChunkRun ν ρ)} {r : ChunkRun ν ρ} (hr : r ∈ runs) :
    (Efn.QueryExec r.chunk r.where_info,
      ({ error := false, wres := none, res := some r.output } : RawResultT ν ρ)) ∈
      (runs.flatMap ChunkRun.calls).zip (runs.flatMap ChunkRun.exts) := by
  have hterms : ∀ r : ChunkRun ν ρ,
      (whereCalls r.chunk r.terms.length : List (Efn ν)).length =
        (r.terms.map (termResult (ρ := ρ))).length := by
    intro r
    simp [whereCalls]
  have hlen : ∀ r : ChunkRun ν ρ, r.calls.length = r.exts.length := by
    intro r
    rw [ChunkRun.calls, ChunkRun.exts, List.length_append, List.length_append, hterms]
    rfl
  induction runs with
  | nil => cases hr
  | cons r' runs ih =>
    rw [List.flatMap_cons, List.flatMap_cons, List.zip_append (hlen r'), List.mem_append]
    rcases List.mem_cons.mp hr with rfl | hr
    · left
      rw [ChunkRun.calls, ChunkRun.exts, List.zip_append (hterms r)]
      exact List.mem_append_right _ (List.mem_singleton_self _)
    · exact Or.inr (ih hr)

/-- Folding and merging keep every row, and the merge succeeds. -/
structure Folding.KeepsRows (F : Folding ρ) : Prop where
  fold : ∀ {parsed result output rc result'}, F.fold parsed result output = some (rc, result') →
    F.size result' = F.size result + F.size output
  merge : ∀ {parsed results rc result}, F.merge parsed results = some (rc, result) →
    rc = true ∧ F.size result = (results.map F.size).sum

theorem Folding.KeepsRows.size_foldAll {F : Folding ρ} (hF : F.KeepsRows) {outputs : List ρ}
    {result : ρ} (h : F.foldAll outputs = some result) :
    F.size result = (outputs.map F.size).sum := by
  induction outputs using List.reverseRecOn generalizing result with
  | nil =>
    obtain rfl := Option.some.inj h
    exact F.size_empty
  | append_singleton outputs c ih =>
    unfold Folding.foldAll at h ih
    rw [List.foldlM_append] at h
    obtain ⟨before, hbefore, h⟩ := Option.bind_eq_some_iff.mp h
    rw [List.foldlM_cons] at h
    obtain ⟨after, hafter, h⟩ := Option.bind_eq_some_iff.mp h
    obtain rfl := Option.some.inj h
    split at hafter
    · rename_i hfold
      obtain rfl := Option.some.inj hafter
      rw [hF.fold hfold, ih hbefore, List.map_append, List.sum_append]
      simp
    · cases hafter

omit [LinearOrder ν] in
theorem Folding.KeepsRows.size_results {F : Folding ρ} (hF : F.KeepsRows)
    {plan : List (List (ChunkRun ν ρ))} {results : List ρ}
    (h : List.Forall₂ (fun runs r => F.foldAll (runs.map ChunkRun.output) = some r) plan results) :
    (results.map F.size).sum = (plan.flatten.map fun r => F.size r.output).sum := by
  induction h with
  | nil => rfl
  | cons hfold _ ih =>
    rw [List.map_cons, List.sum_cons, ih, hF.size_foldAll hfold, List.flatten_cons, List.map_append,
      List.sum_append, List.map_map]
    rfl

theorem exists_left_of_forall₂ {α β : Type} {R : α → β → Prop} {l : List α} {r : List β}
    (h : List.Forall₂ R l r) {b : β} (hb : b ∈ r) : ∃ a ∈ l, R a b := by
  induction h with
  | nil => cases hb
  | cons hab _ ih =>
    rcases List.mem_cons.mp hb with rfl | hb
    · exact ⟨_, List.mem_cons_self, hab⟩
    · obtain ⟨a, ha, hab⟩ := ih hb
      exact ⟨a, List.mem_cons_of_mem _ ha, hab⟩

/-- Without a merge the result has the rows of all chunks. -/
theorem size_of_complete (hF : F.KeepsRows) {s : PipelineState ν ρ}
    (hanswered : ∀ inst ∈ s.insts, Answered output inst) {parsed : Bool} {result : ρ}
    (h : Complete inp F s parsed result) :
    F.size result = ∑ c ∈ Finset.range inp.chunks, F.size (output c) := by
  obtain ⟨plan, results, hchunks, hscripts, hfolded, hmerge⟩ := h
  have houtput : ∀ r ∈ plan.flatten, r.output = output r.chunk := by
    intro r hr
    obtain ⟨runs, hruns, hr⟩ := List.mem_flatten.mp hr
    obtain ⟨inst, hinst, hcalls, hexts, -⟩ := exists_left_of_forall₂ hscripts hruns
    have hmem := select_mem_zip hr
    rw [← hcalls, ← hexts] at hmem
    exact Option.some.inj ((hanswered inst hinst).outputs _ _ _ hmem rfl)
  rw [(hF.merge hmerge).2, hF.size_results hfolded]
  have hsizes : plan.flatten.map (fun r => F.size r.output) =
      (plan.flatten.map ChunkRun.chunk).map fun c => F.size (output c) := by
    rw [List.map_map]
    exact List.map_congr_left fun r hr => by rw [houtput r hr]; rfl
  rw [hsizes]
  exact (hchunks.map _).sum_nat

omit [LinearOrder ν] in
/-- What `QueryMerge` hands on: nothing and an error, or the merge. -/
theorem queryMerge_cases {parsed : Bool} {subs : List (Stage0Out ν ρ)} {m : Stage0Merge ρ}
    (h : QueryMerge inp F parsed subs = some m) :
    (F.size m.result = 0 ∧ QueryResp m ≠ 100) ∨
      (m.overflow = false ∧
        F.merge parsed (subs.map fun sub => sub.result) = some (m.ret_code, m.result)) := by
  unfold QueryMerge at h
  simp only at h
  split at h
  · cases h
  split at h
  · obtain rfl := Option.some.inj h
    exact Or.inl ⟨F.size_empty, show - ENOBUFS ≠ 100 by decide⟩
  split at h
  · obtain rfl := Option.some.inj h
    exact Or.inl ⟨F.size_empty, show - EIO ≠ 100 by decide⟩
  · obtain ⟨⟨rc, result⟩, hmerge, rfl⟩ := Option.map_eq_some_iff.mp h
    exact Or.inr ⟨rfl, hmerge⟩

end Answers

-- ---------------------------------------------------------------------------
-- The two kinds of results
-- ---------------------------------------------------------------------------

section Results

variable {ω δ : Type} [LinearOrder δ] [Numerics δ]

/-- The rows of results that are put together one after the other. -/
theorem size_foldl {ρ : Type} {size : ρ → Nat} {op : ρ → ρ → ρ}
    (hop : ∀ res sub, size (op res sub) = size res + size sub) (results : List ρ) (init : ρ) :
    size (results.foldl op init) = size init + (results.map size).sum := by
  induction results generalizing init with
  | nil => rfl
  | cons sub results ih =>
    rw [List.foldl_cons, ih, hop, List.map_cons, List.sum_cons, Nat.add_assoc]

theorem bufferFolding_keepsRows (p : PostProcessing ω) : (bufferFolding p false).KeepsRows where
  fold := by
    intro parsed result output rc result' h
    obtain ⟨-, rfl⟩ := Prod.mk.inj (Option.some.inj h)
    exact (List.length_append).trans (Nat.add_comm _ _)
  merge := by
    intro parsed results rc result h
    obtain ⟨rfl, rfl⟩ := Prod.mk.inj (Option.some.inj h)
    have hop : ∀ res sub : List ω, (sub ++ res).length = res.length + sub.length :=
      fun res sub => (List.length_append).trans (Nat.add_comm _ _)
    exact ⟨rfl, (size_foldl hop results []).trans (Nat.zero_add _)⟩

theorem mapFolding_keepsRows (hash_range : StatMap δ → Fin (2 ^ 64)) (S : StatsSelect)
    (limit : Nat) : (StatsSelect.mapFolding hash_range S limit false).KeepsRows where
  fold := by
    intro parsed result output rc result' h
    obtain ⟨-, rfl⟩ := Prod.mk.inj (Option.some.inj h)
    exact StatsSelect.size_insertAll output result
  merge := by
    intro parsed results rc result h
    obtain ⟨rfl, rfl⟩ := Prod.mk.inj (Option.some.inj h)
    have hop : ∀ res sub : MapBuf δ, (StatsSelect.insertAll sub res).size = res.size + sub.size :=
      fun res sub => StatsSelect.size_insertAll sub res
    exact ⟨rfl, (size_foldl hop results .empty).trans (Nat.zero_add _)⟩

theorem PostProcessing.length_process_query_le (p : PostProcessing ω) (table : String)
    (filter : ω → Bool) (rows : List ω) (hlimit : 0 < p.limit) (htable : table ≠ FLOW_SERIES_TABLE) :
    (p.process_query table filter rows).length ≤ p.limit := by
  unfold process_query
  simp only [StatsSelect.processQueryLimit, htable, ne_eq, not_false_eq_true, true_or, if_true,
    Nat.ne_of_gt hlimit, List.length_take]
  exact min_le_left _ _

theorem PostProcessing.final_merge_le (p : PostProcessing ω) (parsed : Bool)
    (inputs : List (List ω)) (hlimit : 0 < p.limit) :
    (p.final_merge_processing parsed inputs).2.length ≤ p.limit := by
  unfold final_merge_processing
  split
  · exact Nat.zero_le _
  · simp only [ne_eq, Nat.ne_of_gt hlimit, not_false_eq_true, if_true, List.length_take]
    exact min_le_left _ _

omit [Numerics δ] in
theorem StatsSelect.size_applyLimit (limit : Nat) (m : MapBuf δ) :
    (applyLimit limit m).size = if limit ≠ 0 then min limit m.size else m.size := by
  unfold applyLimit
  split
  · exact List.length_take
  · rfl

theorem mapFolding_merge_le {hash_range : StatMap δ → Fin (2 ^ 64)} {S : StatsSelect} {limit : Nat}
    (hlimit : 0 < limit) {parsed rc : Bool} {results : List (MapBuf δ)} {result : MapBuf δ}
    (h : (StatsSelect.mapFolding hash_range S limit true).merge parsed results = some (rc, result)) :
    result.size ≤ limit := by
  cases parsed with
  | false => cases h
  | true =>
    obtain ⟨final, -, heq⟩ := Option.map_eq_some_iff.mp h
    obtain ⟨-, rfl⟩ := Prod.mk.inj heq
    rw [StatsSelect.size_applyLimit, if_pos (Nat.ne_of_gt hlimit)]
    exact min_le_left _ _

namespace StatsSelect

theorem addField_isT {S S' : StatsSelect} {field : String} (h : addField S field = some (some S')) :
    S'.status_ = S.status_ ∧ (S'.isT_ = true ↔ S.isT_ = true ∨ field = STAT_TIME_FIELD) := by
  rcases addField_cases h with ⟨hfield, -, rfl⟩ | ⟨hfield, -, period, -, rfl⟩ | ⟨hfield, hadds⟩
  · exact ⟨rfl, by simp [hfield]⟩
  · exact ⟨rfl, by simp [hfield]⟩
  · exact ⟨hadds.status, by rw [hadds.isT]; simp [hfield]⟩

theorem addFields_isT {fields : List String} {S S' : StatsSelect} (hS : S.status_ = false)
    (h : addFields S fields = some S') (hstatus : S'.status_ = true) :
    S'.isT_ = true ↔ S.isT_ = true ∨ STAT_TIME_FIELD ∈ fields := by
  induction fields generalizing S with
  | nil =>
    obtain rfl := Option.some.inj h
    simp
  | cons field fields ih =>
    rw [addFields] at h
    split at h
    · cases h
    · obtain rfl := Option.some.inj h
      rw [hS] at hstatus
      cases hstatus
    · rename_i S₁ hone
      obtain ⟨hkeep, hT⟩ := addField_isT hone
      rw [ih (hkeep.trans hS) h, hT, List.mem_cons, or_assoc, @eq_comm _ field]

/-- A query on a multimap is merged unless its SELECT has `T`. -/
theorem isMergeNeeded_iff {known : String → Bool} {select_fields sort_fields : List String}
    {S : StatsSelect} (h : build known select_fields sort_fields = some S)
    (hstatus : S.status_ = true) : S.IsMergeNeeded = true ↔ STAT_TIME_FIELD ∉ select_fields := by
  obtain ⟨S₀, hselect, hsort⟩ := Option.bind_eq_some_iff.mp h
  obtain ⟨hkeep, hT, -⟩ := setSortFields_keeps hsort
  have hkeep' : S.status_ = S₀.status_ ∧ S.isT_ = S₀.isT_ := by
    split at hkeep <;> exact ⟨hkeep, by split at hT <;> exact hT⟩
  have hfields := addFields_isT rfl hselect (hkeep'.1 ▸ hstatus)
  rw [IsMergeNeeded, hkeep'.2, Bool.not_eq_true', ← Bool.not_eq_true, hfields]
  simp [blankSelect]

end StatsSelect

/-- A query that is not parallelized has at most one chunk. -/
theorem chunks_le_one {table : String} {inp : PipelineInput} (h : Prepared table inp)
    (htable : can_parallelize_query table = false) : inp.chunks ≤ 1 := by
  obtain ⟨env, total, fuel, ⟨f, e⟩, sizes, he, hsizes, hchunks⟩ := h
  rw [hchunks]
  simp only [AnalyticsQuery.chunk_sizes, sliceWindow, timeSlice, htable, Bool.false_eq_true,
    if_false] at hsizes he
  cases fuel with
  | zero => cases hsizes
  | succ fuel =>
    rw [chunkLoop] at hsizes
    split at hsizes
    · rename_i hlt
      obtain ⟨rest, hrest, rfl⟩ := Option.map_eq_some_iff.mp hsizes
      have hend : add64 f (sub64 e f) = e := by
        unfold add64 sub64
        omega
      rw [hend] at hrest
      cases fuel with
      | zero => cases hrest
      | succ fuel =>
        rw [chunkLoop, if_neg (lt_irrefl e)] at hrest
        obtain rfl := Option.some.inj hrest
        exact le_refl _
    · obtain rfl := Option.some.inj hsizes
      exact Nat.zero_le _

end Results

-- ---------------------------------------------------------------------------
-- The limit
-- ---------------------------------------------------------------------------

/-- The selected rows of all chunks are no more than the limit; or, where each
chunk is cut, only one chunk has any. -/
def FewRows (table : String) (limit chunks : Nat) (rows : Nat → Nat) : Prop :=
  ∑ c ∈ Finset.range chunks, rows c ≤ limit ∨
    (table ≠ FLOW_SERIES_TABLE ∧ ∃ c, ∀ c' < chunks, c' ≠ c → rows c' = 0)

theorem sum_min_le_iff {limit : Nat} (hlimit : 0 < limit) (chunks : Nat) (rows : Nat → Nat) :
    ∑ c ∈ Finset.range chunks, min limit (rows c) ≤ limit ↔
      ∑ c ∈ Finset.range chunks, rows c ≤ limit ∨ ∃ c, ∀ c' < chunks, c' ≠ c → rows c' = 0 := by
  constructor
  · intro hsum
    by_cases hmany : ∃ c < chunks, limit < rows c
    · -- a chunk with more than the limit leaves no room for another
      obtain ⟨c, hc, hlt⟩ := hmany
      refine Or.inr ⟨c, fun c' hc' hne => ?_⟩
      have htwo := Finset.add_le_sum (s := Finset.range chunks)
        (f := fun c => min limit (rows c)) (fun _ _ => Nat.zero_le _) (Finset.mem_range.mpr hc)
        (Finset.mem_range.mpr hc') hne.symm
      have hboth : min limit (rows c) + min limit (rows c') ≤ limit := htwo.trans hsum
      rw [min_eq_left hlt.le] at hboth
      omega
    · refine Or.inl (le_of_eq_of_le (Finset.sum_congr rfl fun c hc => ?_) hsum)
      have : ¬ limit < rows c := fun hlt => hmany ⟨c, Finset.mem_range.mp hc, hlt⟩
      omega
  · rintro (hsum | ⟨c, hzero⟩)
    · exact (Finset.sum_le_sum fun c _ => min_le_right _ _).trans hsum
    · by_cases hc : c < chunks
      · rw [Finset.sum_eq_single c]
        · exact min_le_left _ _
        · intro c' hc' hne
          rw [hzero c' (Finset.mem_range.mp hc') hne]
          exact Nat.min_zero _
        · intro hnot
          exact absurd (Finset.mem_range.mpr hc) hnot
      · rw [Finset.sum_eq_zero]
        · exact Nat.zero_le _
        · intro c' hc'
          have hlt := Finset.mem_range.mp hc'
          rw [hzero c' hlt (by omega)]
          exact Nat.min_zero _

/-- A run of a query to its end: the SELECT of each chunk answers with the
chunk's output, with fewer than `2^32` rows in all, and `QueryMerge` gives `m`. -/
def RunsTo (ν : Type) [LinearOrder ν] {ρ : Type} (inp : PipelineInput) (F : Folding ρ)
    (output : Nat → ρ) (m : Stage0Merge ρ) : Prop :=
  ∃ (s : PipelineState ν ρ) (parsed : Bool),
    (pipeline inp F).ReachableVia (SelectAnswers output) s ∧ answeredRows F s < UINT32 ∧
    s.finished = true ∧ QueryMerge inp F parsed (s.insts.map fun inst => inst.out) = some m

section Limit

variable {ν ρ ω δ : Type} [LinearOrder ν] [LinearOrder δ] [Numerics δ]
variable {table : String} {inp : PipelineInput}

theorem RunsTo.size_eq {F : Folding ρ} {output : Nat → ρ} {m : Stage0Merge ρ}
    (h : RunsTo ν inp F output m) (hinp : Runnable inp) (hF : F.KeepsRows)
    (hprogress : QueryResp m = 100) :
    F.size m.result = ∑ c ∈ Finset.range inp.chunks, F.size (output c) := by
  obtain ⟨s, parsed, hrun, hrows, hfin, hmerge⟩ := h
  have hreach : (pipeline inp F).Reachable s :=
    hrun.invariant .init fun _ _ _ hreach _ hstep => hreach.step hstep
  have hcomplete := complete_of_progress hinp.terms (pipeline_invariant hinp hreach hrows) hrows
    hfin hmerge hprogress
  exact size_of_complete hF (answered_of_run hrun) hcomplete

theorem RunsTo.size_of_failure {F : Folding ρ} {output : Nat → ρ} {m : Stage0Merge ρ}
    (h : RunsTo ν inp F output m) (hF : F.KeepsRows) (hprogress : QueryResp m ≠ 100) :
    F.size m.result = 0 := by
  obtain ⟨s, parsed, -, -, -, hmerge⟩ := h
  rcases queryMerge_cases hmerge with ⟨hzero, -⟩ | ⟨hover, hfinal⟩
  · exact hzero
  · exact absurd ((queryResp_eq_hundred_iff m).mpr ⟨hover, (hF.merge hfinal).1⟩) hprogress

theorem buffer_limit (hinp : Runnable inp) (hprep : Prepared table inp)
    (hmap : is_map_output table = false) {p : PostProcessing ω} (hlimit : 0 < p.limit)
    {filter : ω → Bool} {rows : Nat → List ω} {m : Stage0Merge (List ω)}
    (h : RunsTo ν inp (bufferFolding p (p.merge_needed table))
      (fun c => p.process_query table filter (rows c)) m) :
    m.result.length ≤ p.limit := by
  have hne : table ≠ FLOW_SERIES_TABLE := by
    rintro rfl
    revert hmap
    decide
  have hmerge : p.merge_needed table = can_parallelize_query table := by
    simp [PostProcessing.merge_needed, QueryEngine.merge_needed, Nat.ne_of_gt hlimit]
  rw [hmerge] at h
  rcases hpar : can_parallelize_query table with _ | _
  · rw [hpar] at h
    by_cases hprogress : QueryResp m = 100
    · -- at most one chunk, which was cut
      have hsize := h.size_eq hinp (bufferFolding_keepsRows p) hprogress
      have hcut := p.length_process_query_le table filter (rows 0) hlimit hne
      have hchunks : inp.chunks = 0 ∨ inp.chunks = 1 := by
        have := chunks_le_one hprep hpar
        omega
      rcases hchunks with hzero | hone
      · rw [hzero, Finset.sum_range_zero] at hsize
        exact le_of_eq_of_le hsize (Nat.zero_le _)
      · rw [hone, Finset.sum_range_one] at hsize
        exact le_of_eq_of_le hsize hcut
    · exact le_of_eq_of_le (h.size_of_failure (bufferFolding_keepsRows p) hprogress) (Nat.zero_le _)
  · rw [hpar] at h
    obtain ⟨s, parsed, -, -, -, hmerged⟩ := h
    rcases queryMerge_cases hmerged with ⟨hzero, -⟩ | ⟨-, hfinal⟩
    · exact le_of_eq_of_le hzero (Nat.zero_le _)
    · have hle := p.final_merge_le parsed
        ((s.insts.map fun inst => inst.out).map fun sub => sub.result) hlimit
      rw [Option.some.inj hfinal] at hle
      exact hle

omit [Numerics δ] in
/-- The rows of a chunk that is cut, and of one that is not. -/
theorem StatsSelect.size_process_query {limit : Nat} (hlimit : 0 < limit)
    (filter : StatMap δ → Bool) (rows : MapBuf δ) :
    (process_query table limit filter rows).size =
      if table ≠ FLOW_SERIES_TABLE then min limit (filterRows filter rows).size
      else (filterRows filter rows).size := by
  unfold process_query processQueryLimit
  rw [size_applyLimit]
  by_cases htable : table = FLOW_SERIES_TABLE
  · subst htable
    simp [can_parallelize_query, FLOW_SERIES_TABLE, OBJECT_VALUE_TABLE]
  · simp [htable, Nat.ne_of_gt hlimit]

theorem map_limit_iff (hinp : Runnable inp)
    {known : String → Bool} {select_fields sort_fields : List String} {S : StatsSelect}
    (hS : StatsSelect.build known select_fields sort_fields = some S) (hstatus : S.status_ = true)
    {hash_range : StatMap δ → Fin (2 ^ 64)} {limit : Nat} (hlimit : 0 < limit)
    {filter : StatMap δ → Bool} {rows : Nat → MapBuf δ} {m : Stage0Merge (MapBuf δ)}
    (h : RunsTo ν inp (StatsSelect.mapFolding hash_range S limit S.IsMergeNeeded)
      (fun c => StatsSelect.process_query table limit filter (rows c)) m) :
    m.result.size ≤ limit ↔ QueryResp m ≠ 100 ∨ STAT_TIME_FIELD ∉ select_fields ∨
      FewRows table limit inp.chunks fun c => (StatsSelect.filterRows filter (rows c)).size := by
  rw [← StatsSelect.isMergeNeeded_iff hS hstatus]
  rcases hneed : S.IsMergeNeeded with _ | _
  · rw [hneed] at h
    have hF := mapFolding_keepsRows hash_range S limit
    by_cases hprogress : QueryResp m = 100
    · have hsize : m.result.size = ∑ c ∈ Finset.range inp.chunks,
          (StatsSelect.process_query table limit filter (rows c)).size :=
        h.size_eq hinp hF hprogress
      simp only [StatsSelect.size_process_query hlimit] at hsize
      rw [hsize]
      unfold FewRows
      by_cases htable : table = FLOW_SERIES_TABLE
      · simp [htable, hprogress]
      · simp [htable, hprogress, sum_min_le_iff hlimit]
    · have hzero : m.result.size = 0 := h.size_of_failure hF hprogress
      simp [hzero, hprogress]
  · rw [hneed] at h
    have hle : m.result.size ≤ limit := by
      obtain ⟨s, parsed, -, -, -, hmerged⟩ := h
      rcases queryMerge_cases hmerged with ⟨hzero, -⟩ | ⟨-, hfinal⟩
      · exact le_of_eq_of_le hzero (Nat.zero_le _)
      · exact mapFolding_merge_le hlimit hfinal
    simp [hle]

/-- The result has no more rows than the limit allows: always for vectors of rows;
for multimaps exactly when the query failed, its SELECT has no `T`, or the chunks
have few rows. -/
theorem limit_holds_iff (hinp : Runnable inp) (hprep : Prepared table inp) :
    (is_map_output table = false →
      ∀ (p : PostProcessing ω) (filter : ω → Bool) (rows : Nat → List ω) (m : Stage0Merge (List ω)),
        0 < p.limit →
        RunsTo ν inp (bufferFolding p (p.merge_needed table))
          (fun c => p.process_query table filter (rows c)) m →
        m.result.length ≤ p.limit) ∧
    (is_map_output table = true →
      ∀ (known : String → Bool) (select_fields sort_fields : List String) (S : StatsSelect)
        (hash_range : StatMap δ → Fin (2 ^ 64)) (limit : Nat) (filter : StatMap δ → Bool)
        (rows : Nat → MapBuf δ) (m : Stage0Merge (MapBuf δ)),
        StatsSelect.build known select_fields sort_fields = some S → S.status_ = true → 0 < limit →
        RunsTo ν inp (StatsSelect.mapFolding hash_range S limit S.IsMergeNeeded)
          (fun c => StatsSelect.process_query table limit filter (rows c)) m →
        (m.result.size ≤ limit ↔ QueryResp m ≠ 100 ∨ STAT_TIME_FIELD ∉ select_fields ∨
          FewRows table limit inp.chunks fun c =>
            (StatsSelect.filterRows filter (rows c)).size)) := by
  constructor
  · intro hmap p filter rows m hlimit hrun
    exact buffer_limit hinp hprep hmap hlimit hrun
  · intro _ known select_fields sort_fields S hash_range limit filter rows m hS hstatus hlimit hrun
    exact map_limit_iff hinp hS hstatus hlimit hrun

end Limit

/-- A run in which all chunks have the same output. -/
theorem selectAnswers_const {ν ρ : Type} [LinearOrder ν] {inp : PipelineInput} {F : Folding ρ}
    {output : ρ} {s s' : PipelineState ν ρ} {a : PipelineAction ν ρ}
    (hstep : pipelineStep inp F s a = some s')
    (ha : ∀ i ext parsed, a = .finish i ext parsed → ext.res = none ∨ ext.res = some output) :
    SelectAnswers (fun _ => output) s a := by
  cases a with
  | start i => trivial
  | claim i => trivial
  | finish i ext parsed =>
    intro inst chunk where_info hinst hphase _
    obtain ⟨j, inst', hj, hcases⟩ := pipelineStep_inv hstep
    rcases hcases with ⟨hact, -⟩ | ⟨hact, -⟩ | ⟨f, ext', parsed', hact, hphase', hanswers, -⟩
    · cases hact
    · cases hact
    · obtain ⟨rfl, rfl, rfl⟩ := PipelineAction.finish.inj hact
      obtain rfl := Option.some.inj (hinst.symm.trans hj)
      obtain rfl := Phase.waiting.inj (hphase.symm.trans hphase')
      rcases ha i ext parsed rfl with hnone | hsome
      · simp [Answers, hnone] at hanswers
      · exact hsome

/-- A row of a SELECT with `T`. -/
def timeRow : MapBuf Nat :=
  Multimap.empty.insert [.uint64 0, .uint64 0]
    ((OrderedMap.empty).insert STAT_TIME_FIELD (.uint64 0), .empty)

def timeSelect : StatsSelect :=
  { StatsSelect.blankSelect with
    status_ := true, isT_ := true, sort_cols_ := (OrderedMap.empty).insert STAT_TIME_FIELD 0 }

def timeFolding : Folding (MapBuf Nat) :=
  StatsSelect.mapFolding (fun _ => 0) timeSelect 1 timeSelect.IsMergeNeeded

def timeInput (chunks : Nat) : PipelineInput :=
  { wterms := 1, chunks := chunks, max_rows := 10, max_tasks := 1 }

/-- One instance runs all chunks, with the row in each of them. -/
def timeActions (chunks : Nat) : List (PipelineAction Nat (MapBuf Nat)) :=
  .start 0 :: ((List.replicate chunks
    [.claim 0, .finish 0 { error := false, wres := some [], res := none } true,
      .finish 0 { error := false, wres := none, res := some timeRow } true]).flatten ++ [.claim 0])

theorem time_runsTo (chunks : Nat)
    (h : ((pipeline (timeInput chunks) timeFolding).run (timeActions chunks)).map (fun s =>
      (s.finished, answeredRows timeFolding s,
        (QueryMerge (timeInput chunks) timeFolding true (s.insts.map fun inst => inst.out)).map
          fun m => (QueryResp m, m.result.size))) = some (true, chunks, some (100, chunks)))
    (hchunks : chunks < UINT32) :
    ∃ m, RunsTo Nat (timeInput chunks) timeFolding (fun _ => timeRow) m ∧ QueryResp m = 100 ∧
      m.result.size = chunks := by
  obtain ⟨s, hs, hfields⟩ := Option.map_eq_some_iff.mp h
  obtain ⟨hfin, hfields⟩ := Prod.mk.inj hfields
  obtain ⟨hrows, hmerge⟩ := Prod.mk.inj hfields
  obtain ⟨m, hm, hresp⟩ := Option.map_eq_some_iff.mp hmerge
  obtain ⟨hprogress, hsize⟩ := Prod.mk.inj hresp
  refine ⟨m, ⟨s, true, ?_, by rw [hrows]; exact hchunks, hfin, hm⟩, hprogress, hsize⟩
  refine System.reachableVia_of_run hs fun a ha s s' hstep => selectAnswers_const hstep ?_
  rintro i ext parsed rfl
  simp only [timeActions, List.mem_cons, List.mem_append, List.mem_flatten, List.mem_replicate,
    reduceCtorEq, List.not_mem_nil, or_false, false_or] at ha
  obtain ⟨l, ⟨-, rfl⟩, ha⟩ := ha
  simp only [List.mem_cons, reduceCtorEq, List.not_mem_nil, or_false, false_or] at ha
  rcases ha with ha | ha
  · obtain ⟨-, rfl, -⟩ := PipelineAction.finish.inj ha
    exact Or.inl rfl
  · obtain ⟨-, rfl, -⟩ := PipelineAction.finish.inj ha
    exact Or.inr rfl

/-- A stat query with `T`, limit 1 and one row. -/
theorem limit_holds_sample :
    ∃ m, RunsTo Nat (timeInput 1) timeFolding (fun _ => timeRow) m ∧ m.result.size ≤ 1 := by
  obtain ⟨m, hrun, -⟩ := time_runsTo 1 (by decide) (by decide)
  have hprep : Prepared "StatTable.Node.cpu" (timeInput 1) :=
    ⟨sampleEnv, 1, 3, (1000000000000, 1000008388608), [8388608], by norm_num, by decide, rfl⟩
  have hiff := (limit_holds_iff (ω := Nat) (ν := Nat) ⟨by decide, by decide, by decide⟩ hprep).2
    (by decide) (fun _ => true) [STAT_TIME_FIELD] [] timeSelect (fun _ => 0) 1 (fun _ => true)
    (fun _ => timeRow) m rfl rfl (by decide) hrun
  exact ⟨m, hrun, hiff.mpr (Or.inr (Or.inr (Or.inl (by decide))))⟩

/-- With `T` in the SELECT the results are not merged: each of two chunks is cut
to its one row, and the result has two. -/
theorem limit_per_chunk :
    ¬ ∀ (table : String) (inp : PipelineInput) (select_fields sort_fields : List String)
      (S : StatsSelect) (hash_range : StatMap Nat → Fin (2 ^ 64)) (limit : Nat)
      (filter : StatMap Nat → Bool) (rows : Nat → MapBuf Nat) (m : Stage0Merge (MapBuf Nat)),
      Runnable inp → Prepared table inp → is_map_output table = true →
      StatsSelect.build (fun _ => true) select_fields sort_fields = some S → S.status_ = true →
      0 < limit →
      RunsTo Nat inp (StatsSelect.mapFolding hash_range S limit S.IsMergeNeeded)
        (fun c => StatsSelect.process_query table limit filter (rows c)) m →
      m.result.size ≤ limit := by
  intro hclaim
  obtain ⟨m, hrun, -, hsize⟩ := time_runsTo 2 (by decide) (by decide)
  have hprep : Prepared "StatTable.Node.cpu" (timeInput 2) :=
    ⟨sampleEnv, 1, 3, (1000000000000, 1000016777216), [8388608, 8388608], by norm_num, by decide,
      rfl⟩
  have hle := hclaim "StatTable.Node.cpu" (timeInput 2) [STAT_TIME_FIELD] [] timeSelect
    (fun _ => 0) 1 (fun _ => true) (fun _ => timeRow) m ⟨by decide, by decide, by decide⟩ hprep
    (by decide) rfl rfl (by decide) hrun
  omega

end TfAnalytics.QueryEngine
