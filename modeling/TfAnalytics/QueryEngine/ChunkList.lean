import TfAnalytics.QueryEngine.Slicing
import Mathlib.Algebra.Order.BigOperators.Group.List

/-!
# Query engine — the chunk list against the slices

`get_query_details` adds up slices until it is at the end of the window, while
each `Init` multiplies its batch number with the slice length. Both are
`uint64_t` computations.

* `chunkLoop_sizes` — the chunks are positive, add up to the window, and chunk
  `k` starts `k` slices into it.
* `sliceWindow_batch` — the slice of a batch number, with the multiplication
  taken modulo `2^64`.
* `wrapsBack_iff` — when a batch number past the end lands inside the window.

The sums never wrap for windows below `2^63`. The product of a batch number
past the end of the chunk list may, and then `Init` finds a start inside the
window again (`chunks_agree_iff`); below the wrap they agree
(`chunks_agree_below_wrap`).
-/

namespace TfAnalytics.QueryEngine

-- ---------------------------------------------------------------------------
-- The additive side
-- ---------------------------------------------------------------------------

/-- A slice is no longer than the window, or one bucket. -/
theorem sliceLength_le_window (max_slice : Nat) (table : String) (total f e : Nat) :
    sliceLength max_slice table total f e ≤ max (e - f + 1) (2 ^ 23) := by
  unfold sliceLength RowTimeInBits
  have hdiv : (e - f) / total ≤ e - f := Nat.div_le_self _ _
  split <;> omega

/-- What the chunk loop pushes, chunk by chunk. -/
theorem chunkLoop_sizes {s e : Nat} (hs : 0 < s) (hbound : e + s < 2 ^ 64) :
    ∀ (fuel start : Nat) (sizes : List Nat), chunkLoop s e fuel start = some sizes →
      (∀ size ∈ sizes, 0 < size) ∧ sizes.sum = e - start ∧
      ∀ k (hk : k < sizes.length), (sizes.take k).sum = s * k ∧
        sizes.get ⟨k, hk⟩ = min s (e - (start + s * k)) := by
  intro fuel
  induction fuel with
  | zero => intro start sizes h; cases h
  | succ fuel ih =>
    intro start sizes h
    rw [chunkLoop] at h
    by_cases hlt : start < e
    · have hadd : add64 start s = start + s := add64_eq (by omega)
      have hsub : sub64 e start = e - start := sub64_eq (le_of_lt hlt) (by omega)
      rw [if_pos hlt, hadd, hsub] at h
      obtain ⟨rest, hrest, rfl⟩ := Option.map_eq_some_iff.mp h
      obtain ⟨hpos, hsum, hat⟩ := ih (start + s) rest hrest
      have hsize : (if start + s ≤ e then s else e - start) = min s (e - start) := by
        rw [min_def]
        split_ifs <;> omega
      rw [hsize]
      refine ⟨?_, ?_, ?_⟩
      · intro size hmem
        rcases List.mem_cons.mp hmem with rfl | hmem
        · omega
        · exact hpos size hmem
      · rw [List.sum_cons, hsum]
        omega
      · intro k hk
        cases k with
        | zero => simp
        | succ k =>
          have hk' : k < rest.length := by simpa using hk
          obtain ⟨htake, hget⟩ := hat k hk'
          -- A chunk behind this one exists, so this one is a whole slice.
          have hlen : start + s < e := by
            by_contra hge
            have hnil : rest = [] := by
              refine List.eq_nil_iff_forall_not_mem.mpr fun size hmem => ?_
              have hle := List.le_sum_of_mem hmem
              have := hpos size hmem
              omega
            rw [hnil] at hk'
            exact absurd hk' (Nat.not_lt_zero k)
          refine ⟨?_, ?_⟩
          · rw [List.take_succ_cons, List.sum_cons, htake, Nat.mul_add_one]
            omega
          · rw [List.get_cons_succ, hget, Nat.mul_add_one]
            congr 1
            omega
    · rw [if_neg hlt] at h
      obtain rfl := Option.some.inj h
      refine ⟨fun size hmem => absurd hmem List.not_mem_nil, ?_, ?_⟩
      · rw [List.sum_nil]
        omega
      · intro k hk
        exact absurd hk (Nat.not_lt_zero k)

-- ---------------------------------------------------------------------------
-- The multiplicative side
-- ---------------------------------------------------------------------------

/-- The start of a batch and whether it is processed, for every batch number. -/
theorem sliceWindow_batch (env : Env) (table : String) (k total : Nat) {f e : Nat} (hfe : f ≤ e)
    (he : e < 2 ^ 63) :
    let q := sliceWindow env table k total (f, e)
    q.from_time_ = (f + sliceLength env.max_slice_ table total f e * k) % 2 ^ 64 ∧
      (q.processing_needed = false ↔ e ≤ q.from_time_) := by
  have hslice := timeSlice_eq env table total hfe he
  simp only [sliceWindow, hslice]
  refine ⟨?_, by simp⟩
  rw [add64, mul64, Nat.add_mod_mod]

/-- A batch that starts inside the window has the slice from there on. -/
theorem sliceWindow_inside {env : Env} {table : String} {k : Nat} (total : Nat) {f e : Nat}
    (hfe : f ≤ e) (he : e < 2 ^ 63)
    (hk : f + sliceLength env.max_slice_ table total f e * k < e) :
    let q := sliceWindow env table k total (f, e)
    q.processing_needed = true ∧
      q.from_time_ = f + sliceLength env.max_slice_ table total f e * k ∧
      q.end_time_ = q.from_time_ + min (sliceLength env.max_slice_ table total f e)
        (e - (f + sliceLength env.max_slice_ table total f e * k)) := by
  have hslice := timeSlice_eq env table total hfe he
  have hle := sliceLength_le_window env.max_slice_ table total f e
  set s := sliceLength env.max_slice_ table total f e with hs
  have hmul : mul64 s k = s * k := mul64_eq (by omega)
  have hfrom : add64 f (s * k) = f + s * k := add64_eq (by omega)
  have hend : add64 (f + s * k) s = f + s * k + s := add64_eq (by omega)
  have hnge : ¬ (f + s * k ≥ e) := by omega
  simp only [sliceWindow, hslice, hmul, hfrom, hend, if_neg hnge]
  refine ⟨by simpa using hnge, trivial, ?_⟩
  rw [min_def]
  split_ifs <;> omega

-- ---------------------------------------------------------------------------
-- Both sides together
-- ---------------------------------------------------------------------------

/-- Some batch number past the end of the window (`parallel_batch_num` is an
`int`) starts inside it, because the product with the slice length wraps. -/
def WrapsBack (s f e : Nat) : Prop :=
  ∃ k, k < 2 ^ 31 ∧ e ≤ f + s * k ∧ (f + s * k) % 2 ^ 64 < e

/-- A slice no longer than `e` does so as soon as the largest batch number
wraps at all. -/
theorem wrapsBack_iff {s f e : Nat} (hfe : f ≤ e) (he : e < 2 ^ 63) (hs : s ≤ e) :
    WrapsBack s f e ↔ 2 ^ 64 ≤ f + s * (2 ^ 31 - 1) := by
  constructor
  · rintro ⟨k, hk, hpast, hback⟩
    by_contra hlt
    have hle : s * k ≤ s * (2 ^ 31 - 1) := Nat.mul_le_mul_left s (by omega)
    rw [Nat.mod_eq_of_lt (by omega)] at hback
    omega
  · intro hwrap
    -- The first batch number that wraps lands at most one slice behind zero.
    have hex : ∃ k, 2 ^ 64 ≤ f + s * k := ⟨_, hwrap⟩
    have hfirst := Nat.find_spec hex
    have hleast := Nat.find_min' hex hwrap
    obtain ⟨k, hk⟩ : ∃ k, Nat.find hex = k + 1 := by
      refine Nat.exists_eq_succ_of_ne_zero fun hzero => ?_
      rw [hzero] at hfirst
      omega
    have hbefore : ¬ 2 ^ 64 ≤ f + s * k := Nat.find_min hex (by omega)
    rw [hk, Nat.mul_add_one] at hfirst
    refine ⟨k + 1, by omega, ?_, ?_⟩
    · rw [Nat.mul_add_one]
      omega
    · rw [Nat.mul_add_one, Nat.mod_eq_sub_mod (by omega), Nat.mod_eq_of_lt (by omega)]
      omega

/-- The chunk list of `get_query_details` and the slices the `Init`s of the
batches keep, all with one clock reading, are the same division of the window:
chunk `k` is the slice of batch `k`, and batches past the list do nothing. -/
def ChunksAgree (env : Env) (now : Nat) (json : JsonApiData) (comp : Components) (total fuel : Nat)
    (q : AnalyticsQuery) : Prop :=
  ∃ sizes, q.chunk_sizes fuel = some sizes ∧ (∀ size ∈ sizes, 0 < size) ∧
    sizes.sum = q.original_end_time - q.original_from_time ∧
    (∀ k (hk : k < sizes.length), ∃ qk, Init env (Clock.at now) json comp k total = .ok qk ∧
      qk.processing_needed = true ∧
      qk.from_time_ = q.original_from_time + (sizes.take k).sum ∧
      qk.end_time_ = qk.from_time_ + sizes.get ⟨k, hk⟩) ∧
    ∀ k, sizes.length ≤ k → k < 2 ^ 31 → ∃ qk, Init env (Clock.at now) json comp k total = .ok qk ∧
      qk.processing_needed = false

/-- The chunk list and its length, for every window. -/
theorem chunk_sizes_spec {env : Env} (table : String) (k total : Nat) {f e fuel : Nat}
    (hmax : 1 ≤ env.max_slice_) (hfe : f ≤ e) (he : e < 2 ^ 63) (hfuel : e - f < fuel) :
    ∃ sizes, (sliceWindow env table k total (f, e)).chunk_sizes fuel = some sizes ∧
      (∀ size ∈ sizes, 0 < size) ∧ sizes.sum = e - f ∧
      (∀ j, j < sizes.length ↔ f + sliceLength env.max_slice_ table total f e * j < e) ∧
      ∀ j (hj : j < sizes.length),
        (sizes.take j).sum = sliceLength env.max_slice_ table total f e * j ∧
        sizes.get ⟨j, hj⟩ = min (sliceLength env.max_slice_ table total f e)
          (e - (f + sliceLength env.max_slice_ table total f e * j)) := by
  have hslice := timeSlice_eq env table total hfe he
  have hle := sliceLength_le_window env.max_slice_ table total f e
  change ∃ sizes, chunkLoop (timeSlice env table total f e) e fuel f = some sizes ∧ _
  rw [hslice]
  set s := sliceLength env.max_slice_ table total f e with hs
  rcases Nat.eq_or_lt_of_le hfe with rfl | hlt
  · -- An empty window has no chunks.
    obtain ⟨n, rfl⟩ := Nat.exists_eq_succ_of_ne_zero (Nat.ne_of_gt (Nat.zero_lt_of_lt hfuel))
    refine ⟨[], by rw [chunkLoop, if_neg (lt_irrefl f)], ?_, ?_, ?_, ?_⟩
    · exact fun size hmem => absurd hmem List.not_mem_nil
    · rw [List.sum_nil, Nat.sub_self]
    · intro j
      rw [List.length_nil]
      omega
    · intro j hj
      exact absurd hj (Nat.not_lt_zero j)
  · have hpos : 0 < s := sliceLength_pos table total hlt hmax
    obtain ⟨sizes, hsizes, hlen⟩ := chunkLoop_spec hpos (by omega) fuel f hfuel (by omega)
    obtain ⟨hall, hsum, hat⟩ := chunkLoop_sizes hpos (by omega) fuel f sizes hsizes
    exact ⟨sizes, hsizes, hall, hsum, hlen, hat⟩

/-- The same for all batch numbers whose product with the slice length does not wrap; no
caller passes another one (0, 1 or the number of a chunk). -/
def ChunksAgreeBelowWrap (env : Env) (now : Nat) (json : JsonApiData) (comp : Components)
    (total fuel : Nat) (q : AnalyticsQuery) : Prop :=
  ∃ sizes, q.chunk_sizes fuel = some sizes ∧ (∀ size ∈ sizes, 0 < size) ∧
    sizes.sum = q.original_end_time - q.original_from_time ∧
    (∀ k (hk : k < sizes.length), ∃ qk, Init env (Clock.at now) json comp k total = .ok qk ∧
      qk.processing_needed = true ∧
      qk.from_time_ = q.original_from_time + (sizes.take k).sum ∧
      qk.end_time_ = qk.from_time_ + sizes.get ⟨k, hk⟩) ∧
    ∀ k, sizes.length ≤ k →
      q.original_from_time + sliceLength env.max_slice_ q.table_ total q.original_from_time
        q.original_end_time * k < 2 ^ 64 →
      ∃ qk, Init env (Clock.at now) json comp k total = .ok qk ∧ qk.processing_needed = false

section Agree

variable {env : Env} {now : Nat} {json : JsonApiData} {comp : Components} {total fuel : Nat}
  {q : AnalyticsQuery}

/-- The chunks are the slices of their batches; a batch past them is cleared if its start, modulo
`2^64`, is past the window. -/
theorem chunks_spec (hmax : 1 ≤ env.max_slice_)
    (hInit : Init env (Clock.at now) json comp 0 total = .ok q)
    (hfe : q.original_from_time ≤ q.original_end_time) (he : q.original_end_time < 2 ^ 63)
    (hfuel : q.original_end_time - q.original_from_time < fuel) :
    ∃ sizes, q.chunk_sizes fuel = some sizes ∧ (∀ size ∈ sizes, 0 < size) ∧
      sizes.sum = q.original_end_time - q.original_from_time ∧
      (∀ k (hk : k < sizes.length), ∃ qk, Init env (Clock.at now) json comp k total = .ok qk ∧
        qk.processing_needed = true ∧
        qk.from_time_ = q.original_from_time + (sizes.take k).sum ∧
        qk.end_time_ = qk.from_time_ + sizes.get ⟨k, hk⟩) ∧
      ∀ k, (sizes.length ≤ k ↔ q.original_end_time ≤ q.original_from_time +
          sliceLength env.max_slice_ q.table_ total q.original_from_time q.original_end_time * k) ∧
        ∃ qk, Init env (Clock.at now) json comp k total = .ok qk ∧
          (qk.processing_needed = false ↔ q.original_end_time ≤ (q.original_from_time +
            sliceLength env.max_slice_ q.table_ total q.original_from_time q.original_end_time * k) %
              2 ^ 64) := by
  obtain ⟨table, f, e, hw, -, rfl, h1, h2, h3⟩ := Init_ok hInit
  change f ≤ e at hfe
  change e < 2 ^ 63 at he
  change e - f < fuel at hfuel
  obtain ⟨sizes, hsizes, hall, hsum, hlen, hat⟩ :=
    chunk_sizes_spec (finalTable comp table) 0 total hmax hfe he hfuel
  have hbatch := fun k => Init_of_window hw h1 h2 h3 k total
  refine ⟨sizes, hsizes, hall, hsum, ?_, ?_⟩
  · intro k hk
    obtain ⟨hneeded, hfrom, hend⟩ := sliceWindow_inside total hfe he ((hlen k).mp hk)
    obtain ⟨htake, hget⟩ := hat k hk
    refine ⟨_, hbatch k, hneeded, ?_, ?_⟩
    · rw [htake]
      exact hfrom
    · rw [hget]
      exact hend
  · intro k
    obtain ⟨hfrom, hneeded⟩ := sliceWindow_batch env (finalTable comp table) k total hfe he
    refine ⟨?_, _, hbatch k, ?_⟩
    · rw [← Nat.not_lt, hlen, Nat.not_lt]
      rfl
    · rw [hneeded, hfrom]
      rfl

/-- **Chunk list and slices.** They agree for every window below `2^63`, unless
the product of a batch number past the end wraps back into the window. -/
theorem chunks_agree_iff (hmax : 1 ≤ env.max_slice_)
    (hInit : Init env (Clock.at now) json comp 0 total = .ok q)
    (hfe : q.original_from_time ≤ q.original_end_time) (he : q.original_end_time < 2 ^ 63)
    (hfuel : q.original_end_time - q.original_from_time < fuel) :
    ChunksAgree env now json comp total fuel q ↔
      ¬ WrapsBack (sliceLength env.max_slice_ q.table_ total q.original_from_time
        q.original_end_time) q.original_from_time q.original_end_time := by
  obtain ⟨sizes, hsizes, hall, hsum, hchunks, hpast⟩ := chunks_spec hmax hInit hfe he hfuel
  constructor
  · rintro ⟨sizes', hsizes', -, -, -, hcleared⟩ ⟨k, hk, hge, hback⟩
    obtain rfl := Option.some.inj (hsizes.symm.trans hsizes')
    obtain ⟨hlength, qk, hqk, hneeded⟩ := hpast k
    obtain ⟨qk', hqk', hclear⟩ := hcleared k (hlength.mpr hge) hk
    obtain rfl := Except.ok.inj (hqk.symm.trans hqk')
    exact absurd (hneeded.mp hclear) (Nat.not_le.mpr hback)
  · intro hno
    refine ⟨sizes, hsizes, hall, hsum, hchunks, fun k hk hint => ?_⟩
    obtain ⟨hlength, qk, hqk, hneeded⟩ := hpast k
    refine ⟨qk, hqk, hneeded.mpr ?_⟩
    by_contra hback
    exact hno ⟨k, hint, hlength.mp hk, Nat.lt_of_not_le hback⟩

/-- For every window below `2^63` they agree for the batch numbers below the wrap. -/
theorem chunks_agree_below_wrap (hmax : 1 ≤ env.max_slice_)
    (hInit : Init env (Clock.at now) json comp 0 total = .ok q)
    (hfe : q.original_from_time ≤ q.original_end_time) (he : q.original_end_time < 2 ^ 63)
    (hfuel : q.original_end_time - q.original_from_time < fuel) :
    ChunksAgreeBelowWrap env now json comp total fuel q := by
  obtain ⟨sizes, hsizes, hall, hsum, hchunks, hpast⟩ := chunks_spec hmax hInit hfe he hfuel
  refine ⟨sizes, hsizes, hall, hsum, hchunks, fun k hk hwrap => ?_⟩
  obtain ⟨hlength, qk, hqk, hneeded⟩ := hpast k
  refine ⟨qk, hqk, hneeded.mpr ?_⟩
  rw [Nat.mod_eq_of_lt hwrap]
  exact hlength.mp hk

end Agree

/-- The sample query has slices of one bucket. -/
theorem chunks_agree_sample :
    ChunksAgreeBelowWrap sampleEnv 1000016777216 sampleJson sampleComponents 1 16777217
      (sliceWindow sampleEnv MESSAGE_TABLE 0 1 (1000000000000, 1000016777216)) :=
  chunks_agree_below_wrap (by decide) sampleJson_Init (by decide) (by decide) (by decide)

/-- An ObjectId query over `2^40` microseconds, which is not sliced. -/
def objectIdJson : JsonApiData where
  table := some "\"ObjectVNTable\""
  start_time := some "10000000000000"
  end_time := some "11099511627776"

def objectIdComponents : Components := ⟨0, 0, 0, true⟩

theorem objectIdJson_Init (k : Nat) :
    Init sampleEnv (Clock.at 11099511627776) objectIdJson objectIdComponents k 1 =
      .ok (sliceWindow sampleEnv OBJECT_VALUE_TABLE k 1 (10000000000000, 11099511627776)) := by
  have hwindow : queryWindow sampleEnv (Clock.at 11099511627776) objectIdJson =
      .ok ("ObjectVNTable", 10000000000000, 11099511627776) := by
    refine queryWindow_absolute rfl rfl rfl rfl (fun _ => rfl) (fun _ => rfl) (by decide)
      (by norm_num) (le_refl _) ?_
    change sub64 11099511627776 (mul64 2160 (60 * 60 * 1000000)) ≤ _
    rw [mul64_eq (by norm_num), sub64_eq (by norm_num) (by norm_num)]
    norm_num
  have htable : finalTable objectIdComponents "ObjectVNTable" = OBJECT_VALUE_TABLE := by decide
  rw [Init_of_window hwindow rfl rfl rfl k 1, htable]

/-- Batch `2^24` of that query is past the only chunk, and `2^40 · 2^24` is 0. -/
theorem batch_wraps_into_window :
    ¬ ∀ (env : Env) (now : Nat) (json : JsonApiData) (comp : Components) (total fuel : Nat)
        (q : AnalyticsQuery), 1 ≤ env.max_slice_ → env.max_slice_ < 2 ^ 31 → 1 ≤ total →
        Init env (Clock.at now) json comp 0 total = .ok q →
        q.original_from_time ≤ q.original_end_time → q.original_end_time < 2 ^ 63 →
        q.original_end_time - q.original_from_time < fuel →
        ChunksAgree env now json comp total fuel q := by
  intro h
  obtain ⟨sizes, hsizes, -, -, -, hpast⟩ := h sampleEnv 11099511627776 objectIdJson
    objectIdComponents 1 1099511627777
    (sliceWindow sampleEnv OBJECT_VALUE_TABLE 0 1 (10000000000000, 11099511627776))
    (by decide) (by decide) (by decide) (objectIdJson_Init 0) (by decide) (by decide) (by decide)
  obtain ⟨sizes', hsizes', -, -, hlen, -⟩ := chunk_sizes_spec OBJECT_VALUE_TABLE 0 1
    (show 1 ≤ sampleEnv.max_slice_ by decide) (show 10000000000000 ≤ 11099511627776 by norm_num)
    (by norm_num) (show 11099511627776 - 10000000000000 < 1099511627777 by norm_num)
  obtain rfl := Option.some.inj (hsizes'.symm.trans hsizes)
  have hslice : sliceLength sampleEnv.max_slice_ OBJECT_VALUE_TABLE 1 10000000000000
      11099511627776 = 1099511627776 := by decide
  have hshort : sizes'.length ≤ 16777216 := by
    by_contra hlong
    have hinside := (hlen 16777216).mp (Nat.lt_of_not_le hlong)
    rw [hslice] at hinside
    omega
  obtain ⟨qk, hqk, hcleared⟩ := hpast 16777216 hshort (by norm_num)
  rw [objectIdJson_Init] at hqk
  obtain rfl := Except.ok.inj hqk
  obtain ⟨hfrom, hneeded⟩ := sliceWindow_batch sampleEnv OBJECT_VALUE_TABLE 16777216 1
    (show 10000000000000 ≤ 11099511627776 by norm_num) (by norm_num)
  have hpastEnd := hneeded.mp hcleared
  rw [hfrom, hslice] at hpastEnd
  norm_num at hpastEnd

end TfAnalytics.QueryEngine
