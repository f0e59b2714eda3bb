import TfAnalytics.QueryEngine.Window

/-!
# Query engine — the slices of one query

`Window` says how one `Init` computes one slice. This module puts the slices of
a query together.

* `chunkLoop_spec` — the chunk list has exactly one entry per slice that starts
  inside the window.
* `sliceWindow_at` — the slice of batch `k` is `[from + k·s, from + (k+1)·s]`,
  cut at the end of the window, `s` being `sliceLength`.
* `servesRow_iff` — a slice returns a stored row exactly when the row's
  timestamp lies in the closed interval of the slice.

Two consequences. Neighbouring slices are closed intervals that share their
common end, so a row is returned once unless it sits on an inner slice
boundary (`row_served_once_iff`). And every chunk is computed by an `Init` of
its own, with its own clock readings, so the slices fit together when all
readings clamp the query to the same window (`windows_cover_of_steady_clamp`).
-/

namespace TfAnalytics.QueryEngine

-- ---------------------------------------------------------------------------
-- Slice length
-- ---------------------------------------------------------------------------

/-- The length of the slices of the window `[f, e]`: a share of the window, at
least one `T2` bucket and at most `max_slice` of them. `OBJECT_VALUE_TABLE` is
not sliced. -/
def sliceLength (max_slice : Nat) (table : String) (total f e : Nat) : Nat :=
  if can_parallelize_query table then
    min (max ((e - f) / total + 1) (2 ^ RowTimeInBits)) (2 ^ RowTimeInBits * max_slice)
  else e - f

theorem timeSlice_eq (env : Env) (table : String) (total : Nat) {f e : Nat}
    (hfe : f ≤ e) (he : e < 2 ^ 63) :
    timeSlice env table total f e = sliceLength env.max_slice_ table total f e := by
  have hsub : sub64 e f = e - f := sub64_eq hfe (by omega)
  have hdiv : (e - f) / total ≤ e - f := Nat.div_le_self _ _
  have hadd : add64 ((e - f) / total) 1 = (e - f) / total + 1 := add64_eq (by omega)
  unfold timeSlice sliceLength
  rw [hsub, hadd]
  split
  · simp only [min_def, max_def]
    split_ifs <;> omega
  · rfl

theorem sliceLength_pos {max_slice : Nat} (table : String) (total : Nat) {f e : Nat}
    (hfe : f < e) (hmax : 1 ≤ max_slice) :
    0 < sliceLength max_slice table total f e := by
  unfold sliceLength RowTimeInBits
  split
  · have : 0 < 2 ^ 23 * max_slice := by positivity
    omega
  · omega

theorem sliceLength_le (max_slice : Nat) (table : String) (total f e : Nat) :
    sliceLength max_slice table total f e ≤ e + 2 ^ 23 + 1 := by
  unfold sliceLength RowTimeInBits
  have hdiv : (e - f) / total ≤ e - f := Nat.div_le_self _ _
  split <;> omega

-- ---------------------------------------------------------------------------
-- The chunk list and the slice of one batch
-- ---------------------------------------------------------------------------

/-- The chunk loop ends, and its `k`-th chunk exists exactly when the `k`-th
slice starts inside the window. -/
theorem chunkLoop_spec {s e : Nat} (hs : 0 < s) (hbound : e + s < 2 ^ 64) :
    ∀ (fuel start : Nat), e - start < fuel → start < 2 ^ 64 →
      ∃ sizes, chunkLoop s e fuel start = some sizes ∧
        ∀ k, k < sizes.length ↔ start + s * k < e := by
  intro fuel
  induction fuel with
  | zero => intro start h _; omega
  | succ fuel ih =>
    intro start hfuel hstart
    rw [chunkLoop]
    by_cases hlt : start < e
    · rw [if_pos hlt]
      have hadd : add64 start s = start + s := add64_eq (by omega)
      rw [hadd]
      obtain ⟨sizes, hsizes, hlen⟩ := ih (start + s) (by omega) (by omega)
      refine ⟨_, by rw [hsizes]; rfl, ?_⟩
      intro k
      cases k with
      | zero => simpa using hlt
      | succ k =>
        rw [List.length_cons, Nat.add_lt_add_iff_right, hlen k, Nat.mul_add_one]
        omega
    · rw [if_neg hlt]
      refine ⟨[], rfl, ?_⟩
      intro k
      have : 0 ≤ s * k := Nat.zero_le _
      simp only [List.length_nil]
      omega

/-- The slice `Init` keeps for a batch that starts inside the window. -/
theorem sliceWindow_at {env : Env} {table : String} {k : Nat} (total : Nat) {f e : Nat}
    (hfe : f ≤ e) (he : e < 2 ^ 62)
    (hk : f + sliceLength env.max_slice_ table total f e * k < e) :
    let q := sliceWindow env table k total (f, e)
    q.processing_needed = true ∧
      q.from_time_ = f + sliceLength env.max_slice_ table total f e * k ∧
      q.end_time_ = min (f + sliceLength env.max_slice_ table total f e * (k + 1)) e := by
  have hs := timeSlice_eq env table total hfe (by omega)
  have hle := sliceLength_le env.max_slice_ table total f e
  set s := sliceLength env.max_slice_ table total f e with hsdef
  have hmul : mul64 s k = s * k := mul64_eq (by omega)
  have hfrom : add64 f (s * k) = f + s * k := add64_eq (by omega)
  have hend : add64 (f + s * k) s = f + s * k + s := add64_eq (by omega)
  have hnge : ¬ (f + s * k ≥ e) := by omega
  simp only [sliceWindow, hs, hmul, hfrom, hend, if_neg hnge, Nat.mul_add_one]
  refine ⟨by simpa using hnge, trivial, ?_⟩
  rw [min_def]
  split_ifs <;> omega

-- ---------------------------------------------------------------------------
-- Row keys and timestamps
-- ---------------------------------------------------------------------------

/-- The timestamp `cb` rebuilds from a stored row is the one the row was
stored with. -/
theorem timestampFromT2T1_split (ts : Nat) :
    timestampFromT2T1 (ts >>> RowTimeInBits) (ts &&& RowTimeInMask) = ts := by
  unfold timestampFromT2T1 RowTimeInBits RowTimeInMask
  have hmask : (0x7fffff : Nat) = 2 ^ 23 - 1 := by norm_num
  rw [hmask, Nat.and_assoc, Nat.and_self, Nat.and_two_pow_sub_one_eq_mod,
    Nat.shiftLeft_eq, Nat.shiftRight_eq_div_pow, Nat.mul_comm,
    ← Nat.two_pow_add_eq_or_of_lt (Nat.mod_lt _ (by norm_num))]
  exact Nat.div_add_mod ts (2 ^ 23)

/-- Every row key of a bucket starts with its `T2`. -/
theorem rowKeysOf_head {q : AnalyticsQuery} {unit : DbQueryUnit} {t2 : Nat}
    {key : List DbDataValue} (h : key ∈ rowKeysOf q unit t2) :
    key.head? = some (.uint32 t2) := by
  have hstart : ∀ rest, (rowKeyStart q t2 ++ rest).head? = some (.uint32 t2) := fun _ => rfl
  unfold rowKeysOf at h
  simp only at h
  split_ifs at h
  · simp only [List.mem_flatMap, List.mem_map] at h
    obtain ⟨_, _, _, _, _, _, rfl⟩ := h
    exact hstart _
  · simp only [List.mem_flatMap, List.mem_singleton] at h
    obtain ⟨_, _, rfl⟩ := h
    exact hstart _
  · simp only [List.mem_map] at h
    obtain ⟨_, _, rfl⟩ := h
    exact hstart _
  · simp only [List.mem_map] at h
    obtain ⟨_, _, rfl⟩ := h
    rw [List.append_assoc]
    exact hstart _
  · rw [List.mem_singleton] at h
    subst h
    rfl
  · rw [List.mem_singleton] at h
    subst h
    exact hstart _

/-- A bucket has at least one row key; a flow query needs a suffix for it,
and `WhereQuery` always gives it one. -/
theorem rowKeysOf_ne_nil {q : AnalyticsQuery} {unit : DbQueryUnit} (t2 : Nat)
    (hsuffix : is_flow_query q.table_ = true → unit.row_key_suffix ≠ []) :
    rowKeysOf q unit t2 ≠ [] := by
  have hparts : partitions ≠ [] := by decide
  intro hnil
  unfold rowKeysOf at hnil
  simp only at hnil
  split_ifs at hnil with h1 h2
  · rw [List.flatMap_eq_nil_iff] at hnil
    have hmap := hnil 0 (by decide)
    rw [List.flatMap_eq_nil_iff] at hmap
    exact hsuffix h2 (List.map_eq_nil_iff.mp (hmap 0 (by simp)))
  · rw [List.flatMap_eq_nil_iff] at hnil
    exact absurd (hnil 0 (by decide)) (by simp)
  · exact hparts (List.map_eq_nil_iff.mp hnil)
  · exact hparts (List.map_eq_nil_iff.mp hnil)

/-- The buckets `populate_row_keys` lists are those between the two ends of
the slice. -/
theorem populate_row_keys_spec (q : AnalyticsQuery) (unit : DbQueryUnit)
    (hsuffix : is_flow_query q.table_ = true → unit.row_key_suffix ≠ [])
    (hfrom : q.from_time_ ≤ q.end_time_) (hend : q.end_time_ < 2 ^ 54) :
    ∃ keys, populate_row_keys q unit = some keys ∧
      ∀ t2, (∃ key ∈ keys, key.head? = some (.uint32 t2)) ↔
        q.from_time_ >>> RowTimeInBits ≤ t2 ∧ t2 ≤ q.end_time_ >>> RowTimeInBits := by
  have hle : q.from_time_ / 2 ^ 23 ≤ q.end_time_ / 2 ^ 23 := Nat.div_le_div_right hfrom
  have hlt : q.end_time_ / 2 ^ 23 < 2 ^ 31 := by omega
  have hstart : (q.from_time_ >>> RowTimeInBits) % 2 ^ 32 = q.from_time_ / 2 ^ 23 := by
    rw [RowTimeInBits, Nat.shiftRight_eq_div_pow]
    omega
  have hstop : (q.end_time_ >>> RowTimeInBits) % 2 ^ 32 = q.end_time_ / 2 ^ 23 := by
    rw [RowTimeInBits, Nat.shiftRight_eq_div_pow]
    omega
  unfold populate_row_keys t2Range
  simp only [hstart, hstop]
  rw [if_neg (by omega)]
  refine ⟨_, rfl, ?_⟩
  intro t2
  rw [RowTimeInBits, Nat.shiftRight_eq_div_pow, Nat.shiftRight_eq_div_pow]
  constructor
  · rintro ⟨key, hkey, hhead⟩
    obtain ⟨t2', hmem, hk⟩ := List.mem_flatMap.mp hkey
    rw [rowKeysOf_head hk] at hhead
    simp only [Option.some.injEq, DbDataValue.uint32.injEq] at hhead
    rw [List.mem_range'_1] at hmem
    omega
  · rintro ⟨hlo, hhi⟩
    obtain ⟨key, hkey⟩ := List.exists_mem_of_ne_nil _ (rowKeysOf_ne_nil t2 hsuffix)
    refine ⟨key, List.mem_flatMap.mpr ⟨t2, ?_, hkey⟩, rowKeysOf_head hkey⟩
    rw [List.mem_range'_1]
    omega

-- ---------------------------------------------------------------------------
-- One Init, all batches
-- ---------------------------------------------------------------------------

theorem clampWindow_end_le (env : Env) (clock : Clock) (table : String) (f e : Nat) :
    (clampWindow env clock table f e).2 ≤ clock.limits := by
  unfold clampWindow
  simp only
  split <;> omega

/-- What a successful `Init` went through. Only the last step depends on the
batch number. -/
theorem Init_ok {env : Env} {clock : Clock} {json : JsonApiData} {comp : Components}
    {k total : Nat} {q : AnalyticsQuery} (h : Init env clock json comp k total = .ok q) :
    ∃ table f e, queryWindow env clock json = .ok (table, f, e) ∧ e ≤ clock.limits ∧
      q = sliceWindow env (finalTable comp table) k total (f, e) ∧
      comp.where_status = 0 ∧ comp.select_status = 0 ∧ comp.post_status = 0 := by
  unfold Init at h
  cases hw : queryWindow env clock json with
  | error err => rw [hw] at h; cases h
  | ok tw =>
    obtain ⟨table, f, e⟩ := tw
    rw [hw] at h
    change (if _ then _ else _) = _ at h
    split_ifs at h with h1 h2 h3
    refine ⟨table, f, e, rfl, ?_, ?_, by simpa using h1, by simpa using h2, by simpa using h3⟩
    · unfold queryWindow at hw
      cases htab : json.table with
      | none => rw [htab] at hw; cases hw
      | some quoted =>
        rw [htab] at hw
        cases hun : unquote quoted.toList with
        | none => simp only [hun] at hw; cases hw
        | some tname =>
          simp only [hun] at hw
          cases hs : runParseTime env clock.start_time json.start_time with
          | error err => rw [hs] at hw; cases hw
          | ok req_from =>
            rw [hs] at hw
            cases he : runParseTime env clock.end_time json.end_time with
            | error err => rw [he] at hw; cases hw
            | ok req_end =>
              rw [he] at hw
              have hpair : clampWindow env clock (String.ofList tname) req_from req_end = (f, e) := by
                injection hw with hw
                injection hw with _ hw
              have := clampWindow_end_le env clock (String.ofList tname) req_from req_end
              rw [hpair] at this
              exact this
    · injection h with h
      exact h.symm

/-- `Init` with the same clamped window and healthy components. -/
theorem Init_of_window {env : Env} {clock : Clock} {json : JsonApiData} {comp : Components}
    {table : String} {f e : Nat} (hw : queryWindow env clock json = .ok (table, f, e))
    (h1 : comp.where_status = 0) (h2 : comp.select_status = 0) (h3 : comp.post_status = 0)
    (k total : Nat) :
    Init env clock json comp k total =
      .ok (sliceWindow env (finalTable comp table) k total (f, e)) := by
  unfold Init
  rw [hw]
  change (if _ then _ else _) = _
  simp [h1, h2, h3]

-- ---------------------------------------------------------------------------
-- Rows and slices
-- ---------------------------------------------------------------------------

/-- The query of batch `k` fetches the bucket of a row stored at `ts` and lets
the row through its time filter. -/
def ServesRow (env : Env) (now : Nat) (json : JsonApiData) (comp : Components) (total : Nat)
    (unit : DbQueryUnit) (ts k : Nat) : Prop :=
  ∃ q keys, Init env (Clock.at now) json comp k total = .ok q ∧
    populate_row_keys q unit = some keys ∧
    (∃ key ∈ keys, key.head? = some (.uint32 (ts >>> RowTimeInBits))) ∧
    cbTimeFilter q (ts >>> RowTimeInBits) (ts &&& RowTimeInMask) = true

theorem cbTimeFilter_iff {q : AnalyticsQuery} {ts : Nat} :
    cbTimeFilter q (ts >>> RowTimeInBits) (ts &&& RowTimeInMask) = true ↔
      q.from_time_ ≤ ts ∧ ts ≤ q.end_time_ := by
  unfold cbTimeFilter
  rw [timestampFromT2T1_split]
  simp

/-- A slice that starts inside the window serves exactly the rows of its
closed interval. -/
theorem servesRow_iff {env : Env} {now : Nat} {json : JsonApiData} {comp : Components}
    {total : Nat} {unit : DbQueryUnit} {table : String} {f e k ts : Nat}
    (hnow : now < 2 ^ 54)
    (hw : queryWindow env (Clock.at now) json = .ok (table, f, e)) (he : e ≤ now)
    (h1 : comp.where_status = 0) (h2 : comp.select_status = 0) (h3 : comp.post_status = 0)
    (hsuffix : is_flow_query (finalTable comp table) = true → unit.row_key_suffix ≠ [])
    (hfe : f ≤ e)
    (hk : f + sliceLength env.max_slice_ (finalTable comp table) total f e * k < e) :
    ServesRow env now json comp total unit ts k ↔
      f + sliceLength env.max_slice_ (finalTable comp table) total f e * k ≤ ts ∧
      ts ≤ min (f + sliceLength env.max_slice_ (finalTable comp table) total f e * (k + 1)) e := by
  have hInit := Init_of_window hw h1 h2 h3 k total
  obtain ⟨-, hfrom, hend⟩ := sliceWindow_at total hfe (by omega) hk
  set q := sliceWindow env (finalTable comp table) k total (f, e) with hq
  have htable : q.table_ = finalTable comp table := rfl
  rw [← hfrom, ← hend]
  constructor
  · rintro ⟨q', keys, hq', -, -, hfilter⟩
    rw [hInit] at hq'
    injection hq' with hq'
    subst hq'
    exact cbTimeFilter_iff.mp hfilter
  · intro hts
    have hmin : q.end_time_ ≤ e := by rw [hend]; exact min_le_right _ _
    obtain ⟨keys, hkeys, hmem⟩ := populate_row_keys_spec q unit
      (by rw [htable]; exact hsuffix) (by omega) (by omega)
    refine ⟨q, keys, hInit, hkeys, (hmem _).mpr ⟨?_, ?_⟩, cbTimeFilter_iff.mpr hts⟩
    · rw [Nat.shiftRight_eq_div_pow, Nat.shiftRight_eq_div_pow]
      exact Nat.div_le_div_right hts.1
    · rw [Nat.shiftRight_eq_div_pow, Nat.shiftRight_eq_div_pow]
      exact Nat.div_le_div_right hts.2

/-- Which closed slices `[s·k, s·(k+1)]` of a window of length `w` hold the
point `d`: one, except on an inner boundary, where it is two. -/
theorem existsUnique_slice_iff {s w d : Nat} (hs : 0 < s) (hd : d ≤ w) (hw : 0 < w) :
    (∃! k, s * k < w ∧ s * k ≤ d ∧ d ≤ s * (k + 1)) ↔
      ¬ ∃ j, 0 < j ∧ d = s * j ∧ d < w := by
  constructor
  · rintro ⟨k, -, huniq⟩ ⟨j, hj, hdj, hlt⟩
    obtain ⟨i, rfl⟩ : ∃ i, j = i + 1 := ⟨j - 1, by omega⟩
    have hmul := Nat.mul_add_one s i
    -- both neighbours of the boundary hold the point
    have hleft := huniq i ⟨by omega, by omega, by omega⟩
    have hright := huniq (i + 1) ⟨by omega, by omega, by rw [Nat.mul_add_one s (i + 1)]; omega⟩
    omega
  · intro hno
    have hdiv := Nat.div_add_mod d s
    have hmod := Nat.mod_lt d hs
    by_cases hend : s * (d / s) < w
    · refine ⟨d / s, ⟨hend, by omega, by rw [Nat.mul_add_one]; omega⟩, ?_⟩
      rintro k ⟨-, hlo, hhi⟩
      by_contra hne
      rcases Nat.lt_or_gt_of_ne hne with hlt | hgt
      · -- an earlier slice that reaches the point ends on it
        have hle : s * (k + 1) ≤ s * (d / s) := Nat.mul_le_mul_left s hlt
        exact hno ⟨k + 1, by omega, by omega, by omega⟩
      · have hle : s * (d / s + 1) ≤ s * k := Nat.mul_le_mul_left s hgt
        rw [Nat.mul_add_one] at hle
        omega
    · -- the point is the end of the window and ends the last slice
      have hpos : 0 < d / s := by
        rcases Nat.eq_zero_or_pos (d / s) with h0 | h0
        · rw [h0] at hend; omega
        · exact h0
      obtain ⟨i, hi⟩ : ∃ i, d / s = i + 1 := ⟨d / s - 1, by omega⟩
      rw [hi, Nat.mul_add_one] at hend hdiv
      refine ⟨i, ⟨by omega, by omega, by rw [Nat.mul_add_one]; omega⟩, ?_⟩
      rintro k ⟨hk, -, hhi⟩
      by_contra hne
      rcases Nat.lt_or_gt_of_ne hne with hlt | hgt
      · have hle : s * (k + 1) ≤ s * i := Nat.mul_le_mul_left s hlt
        omega
      · have hle : s * (i + 1) ≤ s * k := Nat.mul_le_mul_left s hgt
        rw [Nat.mul_add_one] at hle
        omega

/-- **Rows and slices.** Of the batches `get_query_details` lists for a
non-empty window, exactly one returns a row stored inside the window, unless
the row sits on an inner slice boundary. -/
theorem row_served_once_iff {env : Env} {now : Nat} {json : JsonApiData} {comp : Components}
    {total : Nat} {unit : DbQueryUnit} {q : AnalyticsQuery} {ts fuel : Nat}
    (hnow : now < 2 ^ 54) (hmax : 1 ≤ env.max_slice_)
    (hInit : Init env (Clock.at now) json comp 0 total = .ok q)
    (hsuffix : is_flow_query q.table_ = true → unit.row_key_suffix ≠ [])
    (hwindow : q.original_from_time < q.original_end_time)
    (hlo : q.original_from_time ≤ ts) (hhi : ts ≤ q.original_end_time)
    (hfuel : q.original_end_time - q.original_from_time < fuel) :
    ∃ sizes, q.chunk_sizes fuel = some sizes ∧
      ((∃! k, k < sizes.length ∧ ServesRow env now json comp total unit ts k) ↔
        ¬ ∃ j, 0 < j ∧
          ts = q.original_from_time + j * sliceLength env.max_slice_ q.table_ total
            q.original_from_time q.original_end_time ∧
          ts < q.original_end_time) := by
  obtain ⟨table, f, e, hw, he, rfl, h1, h2, h3⟩ := Init_ok hInit
  change e ≤ now at he
  change f < e at hwindow
  change f ≤ ts at hlo
  change ts ≤ e at hhi
  change e - f < fuel at hfuel
  have hpos := sliceLength_pos (finalTable comp table) total hwindow hmax
  have hle := sliceLength_le env.max_slice_ (finalTable comp table) total f e
  have hslice := timeSlice_eq env (finalTable comp table) total (le_of_lt hwindow) (by omega)
  change ∃ sizes, chunkLoop (timeSlice env (finalTable comp table) total f e) e fuel f = some sizes ∧
    ((∃! k, k < sizes.length ∧ ServesRow env now json comp total unit ts k) ↔
      ¬ ∃ j, 0 < j ∧
        ts = f + j * sliceLength env.max_slice_ (finalTable comp table) total f e ∧ ts < e)
  rw [hslice]
  set s := sliceLength env.max_slice_ (finalTable comp table) total f e with hs
  obtain ⟨sizes, hsizes, hlen⟩ := chunkLoop_spec hpos (by omega) fuel f hfuel (by omega)
  refine ⟨sizes, hsizes, ?_⟩
  have hserve : ∀ k, (k < sizes.length ∧ ServesRow env now json comp total unit ts k) ↔
      (s * k < e - f ∧ s * k ≤ ts - f ∧ ts - f ≤ s * (k + 1)) := by
    intro k
    rw [hlen k]
    constructor
    · rintro ⟨hk, hsv⟩
      rw [servesRow_iff hnow hw he h1 h2 h3 hsuffix (le_of_lt hwindow) hk, ← hs] at hsv
      omega
    · rintro ⟨hk, h4, h5⟩
      have hk' : f + s * k < e := by omega
      refine ⟨hk', ?_⟩
      rw [servesRow_iff hnow hw he h1 h2 h3 hsuffix (le_of_lt hwindow) hk', ← hs]
      omega
  simp only [hserve]
  rw [existsUnique_slice_iff hpos (by omega) (by omega)]
  refine not_congr (exists_congr fun j => ?_)
  rw [Nat.mul_comm s j]
  omega

theorem runParseTime_ok {env : Env} {now : Nat} {text : String} {usec : Nat}
    (h : parse_time env.stringToInteger now text.toList = .ok usec) :
    runParseTime env now (some text) = .ok usec := by
  simp only [runParseTime, h]

/-- The window of a request whose start text reads `S` and whose end text
reads `E`. -/
theorem queryWindow_of_texts {env : Env} {json : JsonApiData} {quoted start stop : String}
    {tname : List Char} {S E now : Nat}
    (htable : json.table = some quoted) (hunquote : unquote quoted.toList = some tname)
    (hstart : json.start_time = some start) (hstop : json.end_time = some stop)
    (hS : parse_time env.stringToInteger now start.toList = .ok S)
    (hE : parse_time env.stringToInteger now stop.toList = .ok E) :
    queryWindow env (Clock.at now) json =
      .ok (String.ofList tname, clampWindow env (Clock.at now) (String.ofList tname) S E) := by
  have hfrom : runParseTime env (Clock.at now).start_time (some start) = .ok S :=
    runParseTime_ok hS
  have hend : runParseTime env (Clock.at now).end_time (some stop) = .ok E :=
    runParseTime_ok hE
  unfold queryWindow
  rw [htable, hstart, hstop, hfrom, hend]
  simp only [hunquote]
  rfl

/-- Bounds given as plain microseconds are steady while they stay inside the
TTL and the past: the readings only move the clamps. -/
theorem queryWindow_absolute {env : Env} {json : JsonApiData}
    {quoted start stop : String} {tname : List Char} {S E : Nat}
    (htable : json.table = some quoted) (hunquote : unquote quoted.toList = some tname)
    (hstart : json.start_time = some start) (hstop : json.end_time = some stop)
    (hS : ∀ c, parse_time env.stringToInteger c start.toList = .ok S)
    (hE : ∀ c, parse_time env.stringToInteger c stop.toList = .ok E)
    (hnames : is_stat_fieldnames_table_query (String.ofList tname) = false)
    (hSE : S ≤ E) {now : Nat} (hEnow : E ≤ now)
    (hmin : min_start_time env (Clock.at now) (String.ofList tname) ≤ S) :
    queryWindow env (Clock.at now) json = .ok (String.ofList tname, S, E) := by
  have hclamp : clampWindow env (Clock.at now) (String.ofList tname) S E = (S, E) := by
    have hfrom : ¬ S < min_start_time env (Clock.at now) (String.ofList tname) := by omega
    have hend : ¬ E > (Clock.at now).limits := by
      change ¬ E > now
      omega
    have hswap : ¬ S > E := by omega
    simp only [clampWindow, widenFieldNames, hnames, Bool.false_eq_true, if_false, if_neg hfrom,
      if_neg hend, if_neg hswap]
  rw [queryWindow_of_texts htable hunquote hstart hstop (hS now) (hE now), hclamp]

-- ---------------------------------------------------------------------------
-- A row on an inner boundary
-- ---------------------------------------------------------------------------

/-- What `stringToInteger` does on a plain decimal. -/
def decimal (digits : List Char) : Option Nat :=
  digits.foldl (fun acc c => acc.bind fun n =>
    if c.isDigit then some (10 * n + (c.toNat - '0'.toNat)) else none) (some 0)

/-- The default TTLs and slices of one bucket. -/
def sampleEnv : Env where
  ttlmap_
    | .FLOWDATA_TTL => 2
    | .STATSDATA_TTL => 168
    | .CONFIGAUDIT_TTL => 2160
    | .GLOBAL_TTL => 48
  max_slice_ := 1
  stringToInteger := decimal

/-- A message query over two buckets. -/
def sampleJson : JsonApiData where
  table := some "\"MessageTable\""
  start_time := some "1000000000000"
  end_time := some "1000016777216"

def sampleComponents : Components := ⟨0, 0, 0, false⟩

def sampleUnit : DbQueryUnit := ⟨[], true, true⟩

theorem sampleJson_window {now : Nat} (hlo : 1000016777216 ≤ now) (hhi : now ≤ 1000016777716) :
    queryWindow sampleEnv (Clock.at now) sampleJson =
      .ok (MESSAGE_TABLE, 1000000000000, 1000016777216) := by
  refine queryWindow_absolute rfl rfl rfl rfl (fun _ => rfl) (fun _ => rfl) (by decide)
    (by norm_num) hlo ?_
  change sub64 now (mul64 48 (60 * 60 * 1000000)) ≤ _
  rw [mul64_eq (by norm_num), sub64_eq (by omega) (by omega)]
  omega

theorem sampleJson_Init :
    Init sampleEnv (Clock.at 1000016777216) sampleJson sampleComponents 0 1 =
      .ok (sliceWindow sampleEnv MESSAGE_TABLE 0 1 (1000000000000, 1000016777216)) := by
  have htable : finalTable sampleComponents MESSAGE_TABLE = MESSAGE_TABLE := by decide
  rw [Init_of_window (sampleJson_window (le_refl _) (by norm_num)) rfl rfl rfl 0 1, htable]

/-- The row stored at the end of the first slice is returned by the first and
by the second batch. -/
theorem boundary_row_served_twice :
    ¬ ∀ (env : Env) (now : Nat) (json : JsonApiData) (comp : Components) (total : Nat)
        (unit : DbQueryUnit) (q : AnalyticsQuery) (ts fuel : Nat) (sizes : List Nat),
        now < 2 ^ 54 → 1 ≤ env.max_slice_ → 1 ≤ total →
        Init env (Clock.at now) json comp 0 total = .ok q →
        (is_flow_query q.table_ = true → unit.row_key_suffix ≠ []) →
        q.original_from_time < q.original_end_time →
        q.original_from_time ≤ ts → ts ≤ q.original_end_time →
        q.chunk_sizes fuel = some sizes →
        ∃! k, k < sizes.length ∧ ServesRow env now json comp total unit ts k := by
  intro h
  obtain ⟨k, -, huniq⟩ := h sampleEnv 1000016777216 sampleJson sampleComponents 1 sampleUnit
    _ 1000008388608 3 [8388608, 8388608] (by norm_num) (by decide) (by decide) rfl
    (by decide) (by decide) (by decide) (by decide) (by decide)
  have hfirst : ServesRow sampleEnv 1000016777216 sampleJson sampleComponents 1 sampleUnit
      1000008388608 0 :=
    ⟨_, _, rfl, rfl, ⟨[.uint32 119210, .uint8 0], by decide, by decide⟩, by decide⟩
  have hsecond : ServesRow sampleEnv 1000016777216 sampleJson sampleComponents 1 sampleUnit
      1000008388608 1 :=
    ⟨_, _, rfl, rfl, ⟨[.uint32 119210, .uint8 0], by decide, by decide⟩, by decide⟩
  have h0 := huniq 0 ⟨by decide, hfirst⟩
  have h1 := huniq 1 ⟨by decide, hsecond⟩
  omega

/-- A row inside the first slice of the sample query. -/
theorem row_served_once_sample :
    ∃ sizes, (sliceWindow sampleEnv MESSAGE_TABLE 0 1 (1000000000000, 1000016777216)).chunk_sizes
        16777217 = some sizes ∧
      ((∃! k, k < sizes.length ∧ ServesRow sampleEnv 1000016777216 sampleJson sampleComponents 1
          sampleUnit 1000000000007 k) ↔
        ¬ ∃ j, 0 < j ∧
          1000000000007 = 1000000000000 + j * sliceLength 1 MESSAGE_TABLE 1
            1000000000000 1000016777216 ∧
          1000000000007 < 1000016777216) := by
  exact row_served_once_iff (by norm_num) (by decide) sampleJson_Init (by decide)
    (show (1000000000000 : Nat) < 1000016777216 by norm_num)
    (show (1000000000000 : Nat) ≤ 1000000000007 by norm_num)
    (show (1000000000007 : Nat) ≤ 1000016777216 by norm_num)
    (show (1000016777216 : Nat) - 1000000000000 < 16777217 by norm_num)

-- ---------------------------------------------------------------------------
-- One query, many clock readings
-- ---------------------------------------------------------------------------

/-- The windows of the executions of chunks `0 .. n-1` cover exactly the window
`[f, e]` and leave no gap between neighbours. -/
structure WindowsCover (f e n : Nat) (qs : Nat → AnalyticsQuery) : Prop where
  exact : ∀ t, (∃ k, k < n ∧ (qs k).processing_needed = true ∧
      (qs k).from_time_ ≤ t ∧ t ≤ (qs k).end_time_) ↔ f ≤ t ∧ t ≤ e
  noGap : ∀ k, k + 1 < n → (qs (k + 1)).from_time_ ≤ (qs k).end_time_

/-- Slices of one common window cover it. -/
theorem slices_cover {s f e n : Nat} {qs : Nat → AnalyticsQuery} (hs : 0 < s) (hfe : f < e)
    (hn : ∀ k, k < n ↔ f + s * k < e)
    (hqs : ∀ k, k < n → (qs k).processing_needed = true ∧
      (qs k).from_time_ = f + s * k ∧ (qs k).end_time_ = min (f + s * (k + 1)) e) :
    WindowsCover f e n qs := by
  constructor
  · intro t
    constructor
    · rintro ⟨k, hk, -, hlo, hhi⟩
      obtain ⟨-, hfrom, hend⟩ := hqs k hk
      rw [hfrom] at hlo
      rw [hend] at hhi
      omega
    · rintro ⟨hlo, hhi⟩
      have hdiv := Nat.div_add_mod (t - f) s
      have hmod := Nat.mod_lt (t - f) hs
      by_cases hin : (t - f) / s < n
      · obtain ⟨hproc, hfrom, hend⟩ := hqs _ hin
        refine ⟨(t - f) / s, hin, hproc, by omega, ?_⟩
        rw [hend, Nat.mul_add_one]
        omega
      · -- `t` is the end of the window: the last slice holds it
        have hge : ¬ (f + s * ((t - f) / s) < e) := fun hlt => hin ((hn _).mpr hlt)
        have hpos : 0 < (t - f) / s := by
          rcases Nat.eq_zero_or_pos ((t - f) / s) with h0 | h0
          · rw [h0] at hge; omega
          · exact h0
        obtain ⟨i, hi⟩ : ∃ i, (t - f) / s = i + 1 := ⟨(t - f) / s - 1, by omega⟩
        rw [hi, Nat.mul_add_one] at hge hdiv
        have hi' : i < n := (hn i).mpr (by omega)
        obtain ⟨hproc, hfrom, hend⟩ := hqs i hi'
        refine ⟨i, hi', hproc, by omega, ?_⟩
        rw [hend, Nat.mul_add_one]
        omega
  · intro k hk
    obtain ⟨-, hfrom, -⟩ := hqs (k + 1) hk
    obtain ⟨-, -, hend⟩ := hqs k (by omega)
    have hin := (hn (k + 1)).mp hk
    rw [hfrom, hend]
    omega

/-- A time text that is no `now` expression: `parse_time` reads the number off
it without looking at the clock. -/
def PlainTime (env : Env) (text : String) (usec : Nat) : Prop :=
  text ≠ "\"now\"" ∧
  (∃ head, substr text.toList 1 3 = some head ∧ head ≠ "now".toList) ∧
  env.stringToInteger text.toList = some usec

theorem PlainTime.parse_time {env : Env} {text : String} {usec : Nat}
    (h : PlainTime env text usec) (now : Nat) :
    parse_time env.stringToInteger now text.toList = .ok usec := by
  obtain ⟨hnow, ⟨head, hsubstr, hhead⟩, hinteger⟩ := h
  have hne : text.toList ≠ "\"now\"".toList := fun heq => hnow (String.toList_inj.mp heq)
  unfold QueryEngine.parse_time
  rw [if_neg hne, hsubstr]
  simp only [if_neg hhead, hinteger]

/-- The length a FieldNames window is widened to. -/
def cacheWindow : Nat := 2 ^ (RowTimeInBits + CacheTimeInAdditionalBits)

/-- The bounds `start` and `stop` of a request mean the same window at the two
instants of `instants`. The end is a plain time that is not in the future. The
start is a plain time which the TTL does not reach, or it lies behind the end
both times, or (FieldNames) it is so close to the end that the cache window
replaces it both times. -/
structure BoundsStay (env : Env) (table start stop : String) (instants : List Nat) (E : Nat) :
    Prop where
  stop_plain : PlainTime env stop E
  stop_past : ∀ now ∈ instants, E ≤ now
  start_stays :
    (∃ S, PlainTime env start S ∧ S ≤ E ∧
      (is_stat_fieldnames_table_query table = true → S + cacheWindow ≤ E) ∧
      ∀ now ∈ instants, min_start_time env (Clock.at now) table ≤ S) ∨
    (is_stat_fieldnames_table_query table = false ∧
      ∀ now ∈ instants, ∃ S, parse_time env.stringToInteger now start.toList = .ok S ∧
        E < max S (min_start_time env (Clock.at now) table)) ∨
    (is_stat_fieldnames_table_query table = true ∧
      ∀ now ∈ instants, ∃ S, parse_time env.stringToInteger now start.toList = .ok S ∧
        S ≤ E ∧ E < S + cacheWindow ∧
        min_start_time env (Clock.at now) table + cacheWindow ≤ E)

/-- The texts of a request put its window at the same place at `prepare` and
at `now`. -/
def StaysPut (env : Env) (json : JsonApiData) (prepare now : Nat) : Prop :=
  ∃ quoted tname start stop E,
    json.table = some quoted ∧ unquote quoted.toList = some tname ∧
    json.start_time = some start ∧ json.end_time = some stop ∧
    BoundsStay env (String.ofList tname) start stop [prepare, now] E

/-- A start between the TTL and the end is kept as it is. -/
theorem clampWindow_kept {env : Env} {now : Nat} {table : String} {S E : Nat}
    (hE : E < 2 ^ 64) (hpast : E ≤ now) (hSE : S ≤ E)
    (hcache : is_stat_fieldnames_table_query table = true → S + cacheWindow ≤ E)
    (hmin : min_start_time env (Clock.at now) table ≤ S) :
    clampWindow env (Clock.at now) table S E = (S, E) := by
  have hfrom : ¬ S < min_start_time env (Clock.at now) table := by omega
  have hend : ¬ E > (Clock.at now).limits := not_lt.mpr hpast
  have hswap : ¬ S > E := not_lt.mpr hSE
  have hwiden : widenFieldNames table (min_start_time env (Clock.at now) table) S E = S := by
    unfold widenFieldNames
    cases hnames : is_stat_fieldnames_table_query table with
    | false => rfl
    | true =>
      have hlong := hcache hnames
      unfold cacheWindow at hlong
      have hperiod : ¬ sub64 E S < 2 ^ (RowTimeInBits + CacheTimeInAdditionalBits) := by
        rw [sub64_eq hSE hE]
        omega
      simp only [if_true, if_neg hperiod]
  simp only [clampWindow, if_neg hfrom, if_neg hend, hwiden, if_neg hswap]

/-- A start behind the end: the window is the last microsecond before it. -/
theorem clampWindow_behind {env : Env} {now : Nat} {table : String} {S E : Nat}
    (hpast : E ≤ now) (hnames : is_stat_fieldnames_table_query table = false)
    (hbehind : E < max S (min_start_time env (Clock.at now) table)) :
    clampWindow env (Clock.at now) table S E = (sub64 E 1, E) := by
  have hend : ¬ E > (Clock.at now).limits := not_lt.mpr hpast
  have hfrom : (if S < min_start_time env (Clock.at now) table
      then min_start_time env (Clock.at now) table else S) > E := by
    split <;> omega
  simp only [clampWindow, widenFieldNames, hnames, Bool.false_eq_true, if_false, if_neg hend,
    if_pos hfrom]

/-- A FieldNames start closer to the end than the cache window. -/
theorem clampWindow_cached {env : Env} {now : Nat} {table : String} {S E : Nat}
    (hE : E < 2 ^ 64) (hpast : E ≤ now) (hnames : is_stat_fieldnames_table_query table = true)
    (hSE : S ≤ E) (hclose : E < S + cacheWindow)
    (hmin : min_start_time env (Clock.at now) table + cacheWindow ≤ E) :
    clampWindow env (Clock.at now) table S E = (E - cacheWindow, E) := by
  have hfrom : ¬ S < min_start_time env (Clock.at now) table := by omega
  have hend : ¬ E > (Clock.at now).limits := not_lt.mpr hpast
  have hwiden : widenFieldNames table (min_start_time env (Clock.at now) table) S E =
      E - cacheWindow := by
    unfold cacheWindow at hclose hmin ⊢
    have hperiod : E - S < 2 ^ (RowTimeInBits + CacheTimeInAdditionalBits) := by omega
    have hwidened : sub64 S (2 ^ (RowTimeInBits + CacheTimeInAdditionalBits) - (E - S)) =
        E - 2 ^ (RowTimeInBits + CacheTimeInAdditionalBits) := by
      rw [sub64_eq (by omega) (by omega)]
      omega
    have hfloor : ¬ E - 2 ^ (RowTimeInBits + CacheTimeInAdditionalBits) <
        min_start_time env (Clock.at now) table := by omega
    simp only [widenFieldNames, hnames, if_true, sub64_eq hSE hE, if_pos hperiod, hwidened,
      if_neg hfloor]
  have hswap : ¬ E - cacheWindow > E := by omega
  simp only [clampWindow, if_neg hfrom, if_neg hend, hwiden, if_neg hswap]

/-- Bounds that stay put give one window at every instant they stay put at. -/
theorem BoundsStay.window {env : Env} {json : JsonApiData} {quoted start stop : String}
    {tname : List Char} {instants : List Nat} {E : Nat} (hE : E < 2 ^ 64)
    (h : BoundsStay env (String.ofList tname) start stop instants E)
    (htable : json.table = some quoted) (hunquote : unquote quoted.toList = some tname)
    (hstart : json.start_time = some start) (hstop : json.end_time = some stop) :
    ∃ f, ∀ now ∈ instants,
      queryWindow env (Clock.at now) json = .ok (String.ofList tname, f, E) := by
  obtain ⟨hplain, hpast, ⟨S, hSplain, hSE, hcache, hmin⟩ | ⟨hnames, hbehind⟩ |
    ⟨hnames, hclose⟩⟩ := h
  · refine ⟨S, fun now hnow => ?_⟩
    rw [queryWindow_of_texts htable hunquote hstart hstop (hSplain.parse_time now)
      (hplain.parse_time now), clampWindow_kept hE (hpast now hnow) hSE hcache (hmin now hnow)]
  · refine ⟨sub64 E 1, fun now hnow => ?_⟩
    obtain ⟨S, hS, hlt⟩ := hbehind now hnow
    rw [queryWindow_of_texts htable hunquote hstart hstop hS (hplain.parse_time now),
      clampWindow_behind (hpast now hnow) hnames hlt]
  · refine ⟨E - cacheWindow, fun now hnow => ?_⟩
    obtain ⟨S, hS, hSE, hlt, hmin⟩ := hclose now hnow
    rw [queryWindow_of_texts htable hunquote hstart hstop hS (hplain.parse_time now),
      clampWindow_cached hE (hpast now hnow) hnames hSE hlt hmin]

theorem StaysPut.window {env : Env} {json : JsonApiData} {prepare now : Nat}
    (h : StaysPut env json prepare now) (hclock : prepare < 2 ^ 54) :
    queryWindow env (Clock.at now) json = queryWindow env (Clock.at prepare) json := by
  obtain ⟨quoted, tname, start, stop, E, htable, hunquote, hstart, hstop, hstay⟩ := h
  have hE : E < 2 ^ 64 := by
    have := hstay.stop_past prepare (by simp)
    omega
  obtain ⟨f, hf⟩ := hstay.window hE htable hunquote hstart hstop
  rw [hf now (by simp), hf prepare (by simp)]

/-- **One query, one window.** If every chunk reads the clock of prepare time,
or the texts of the request put the window at the same place at its reading,
the windows of the per-chunk executions cover the prepared window. -/
theorem windows_cover_of_bounds_stay {env : Env} {json : JsonApiData} {comp : Components}
    {total prepare fuel : Nat} {q : AnalyticsQuery} (reading : Nat → Nat)
    (hclock : prepare < 2 ^ 54) (hmax : 1 ≤ env.max_slice_)
    (hInit : Init env (Clock.at prepare) json comp 0 total = .ok q)
    (hwindow : q.original_from_time < q.original_end_time)
    (hfuel : q.original_end_time - q.original_from_time < fuel) :
    ∃ sizes, q.chunk_sizes fuel = some sizes ∧
      ((∀ k, k < sizes.length →
          reading k = prepare ∨ StaysPut env json prepare (reading k)) →
        ∃ qs, (∀ k, k < sizes.length →
            Init env (Clock.at (reading k)) json comp k total = .ok (qs k)) ∧
          WindowsCover q.original_from_time q.original_end_time sizes.length qs) := by
  obtain ⟨table, f, e, hw, he, rfl, h1, h2, h3⟩ := Init_ok hInit
  change e ≤ prepare at he
  change f < e at hwindow
  change e - f < fuel at hfuel
  have hpos := sliceLength_pos (finalTable comp table) total hwindow hmax
  have hle := sliceLength_le env.max_slice_ (finalTable comp table) total f e
  have hslice := timeSlice_eq env (finalTable comp table) total (le_of_lt hwindow) (by omega)
  obtain ⟨sizes, hsizes, hlen⟩ := chunkLoop_spec hpos (by omega) fuel f hfuel (by omega)
  refine ⟨sizes, ?_, ?_⟩
  · change chunkLoop (timeSlice env (finalTable comp table) total f e) e fuel f = some sizes
    rw [hslice]
    exact hsizes
  · intro hstay
    -- every reading clamps the request to the prepared window
    have hsteady : ∀ k, k < sizes.length →
        queryWindow env (Clock.at (reading k)) json = .ok (table, f, e) := by
      intro k hk
      rcases hstay k hk with hsame | hput
      · rw [hsame, hw]
      · rw [hput.window hclock, hw]
    refine ⟨fun k => sliceWindow env (finalTable comp table) k total (f, e), ?_, ?_⟩
    · intro k hk
      exact Init_of_window (hsteady k hk) h1 h2 h3 k total
    · exact slices_cover hpos hwindow hlen fun k hk =>
        sliceWindow_at total (le_of_lt hwindow) (by omega) ((hlen k).mp hk)

/-- The sample bounds stay put for the first TTL after their end. -/
theorem sampleJson_staysPut {prepare now : Nat} (hp : 1000016777216 ≤ prepare)
    (hp' : prepare ≤ 1000016777716) (hlo : 1000016777216 ≤ now) (hhi : now ≤ 1000016777716) :
    StaysPut sampleEnv sampleJson prepare now := by
  have hmin : ∀ c, 1000016777216 ≤ c → c ≤ 1000016777716 →
      min_start_time sampleEnv (Clock.at c) MESSAGE_TABLE ≤ 1000000000000 := by
    intro c hc hc'
    change sub64 c (mul64 48 (60 * 60 * 1000000)) ≤ _
    rw [mul64_eq (by norm_num), sub64_eq (by omega) (by omega)]
    omega
  refine ⟨_, MESSAGE_TABLE.toList, _, _, 1000016777216, rfl, rfl, rfl, rfl, ?_, ?_,
    .inl ⟨1000000000000, ?_, by norm_num, ?_, ?_⟩⟩
  · exact ⟨by decide, ⟨_, rfl, by decide⟩, by decide⟩
  · simp only [List.mem_cons, List.not_mem_nil, or_false, forall_eq_or_imp, forall_eq]
    exact ⟨hp, hlo⟩
  · exact ⟨by decide, ⟨_, rfl, by decide⟩, by decide⟩
  · intro hnames
    exact absurd hnames (by decide)
  · simp only [List.mem_cons, List.not_mem_nil, or_false, forall_eq_or_imp, forall_eq]
    exact ⟨hmin prepare hp hp', hmin now hlo hhi⟩

/-- The clock advances between the two chunks of an absolute query; the bounds
stay put at every reading. -/
theorem windows_cover_absolute_sample :
    ∃ sizes, (sliceWindow sampleEnv MESSAGE_TABLE 0 1 (1000000000000, 1000016777216)).chunk_sizes
        16777217 = some sizes ∧
      ((∀ k, k < sizes.length → 1000016777216 + 5 * min (k + 1) 100 = 1000016777216 ∨
          StaysPut sampleEnv sampleJson 1000016777216 (1000016777216 + 5 * min (k + 1) 100)) ∧
        ∃ qs, (∀ k, k < sizes.length →
            Init sampleEnv (Clock.at (1000016777216 + 5 * min (k + 1) 100)) sampleJson
              sampleComponents k 1 = .ok (qs k)) ∧
          WindowsCover 1000000000000 1000016777216 sizes.length qs) := by
  obtain ⟨sizes, hsizes, hcover⟩ := windows_cover_of_bounds_stay
    (fun k => 1000016777216 + 5 * min (k + 1) 100) (by norm_num) (by decide) sampleJson_Init
    (show (1000000000000 : Nat) < 1000016777216 by norm_num)
    (show (1000016777216 : Nat) - 1000000000000 < 16777217 by norm_num)
  have hput : ∀ k, StaysPut sampleEnv sampleJson 1000016777216
      (1000016777216 + 5 * min (k + 1) 100) := fun k =>
    sampleJson_staysPut (le_refl _) (by norm_num) (by omega) (by omega)
  exact ⟨sizes, hsizes, fun k _ => .inr (hput k), hcover fun k _ => .inr (hput k)⟩

/-- A query up to `now`, prepared one microsecond before its only chunk runs:
the chunk reads past the window that was sliced. -/
theorem windows_drift_with_the_clock :
    ¬ ∀ (env : Env) (json : JsonApiData) (comp : Components) (total prepare fuel : Nat)
        (reading : Nat → Nat) (q : AnalyticsQuery) (sizes : List Nat),
        prepare < 2 ^ 54 → 1 ≤ env.max_slice_ → 1 ≤ total →
        prepare ≤ reading 0 → Monotone reading →
        Init env (Clock.at prepare) json comp 0 total = .ok q →
        q.original_from_time < q.original_end_time →
        q.chunk_sizes fuel = some sizes →
        ∃ qs, (∀ k, k < sizes.length →
            Init env (Clock.at (reading k)) json comp k total = .ok (qs k)) ∧
          WindowsCover q.original_from_time q.original_end_time sizes.length qs := by
  intro h
  obtain ⟨qs, hqs, hcover⟩ := h sampleEnv { sampleJson with end_time := some "\"now\"" }
    sampleComponents 16 1000000000100 2 (fun _ => 1000000000101) _ [100]
    (by norm_num) (by decide) (by decide) (by decide) (fun _ _ _ => le_refl _) rfl
    (by decide) (by decide)
  have h0 := hqs 0 (by decide)
  have hend : (qs 0).processing_needed = true ∧ (qs 0).from_time_ = 1000000000000 ∧
      (qs 0).end_time_ = 1000000000101 := by
    injection h0 with h0
    rw [← h0]
    decide
  have hout := (hcover.exact 1000000000101).mp
    ⟨0, by decide, hend.1, by rw [hend.2.1]; decide, by rw [hend.2.2]⟩
  exact absurd hout.2 (by decide)

end TfAnalytics.QueryEngine
