import TfAnalytics.QueryEngine.StatsLimit

/-!
# Query engine — the final merge of groups with a counted column

`COUNT_DISTINCT(f)` groups by `f` as well, and `MergeFinal` drops `f` from each
entry of each instance and counts one for it, so that entries that differed in
`f` alone become one. An instance entry is merged from rows, the final one from
instance entries, and `MergedFrom` says of both what they were merged from: the
totals of the aggregates that reach the entry, and its count.

* `mergedFrom_isTotal`: merging keeps that up;
* `mergeFinal_represents`: what the final merge of the instances holds;
* `runQuery_merges`: a query whose chunks are not cut, from the rows to the
  result.

Without a COUNT_DISTINCT the column has the empty name, and nothing is dropped.
-/

namespace TfAnalytics.QueryEngine.StatsSelect

open TfAnalytics.Lib

variable {δ : Type} [LinearOrder δ] [Numerics δ]

-- ---------------------------------------------------------------------------
-- Dropping the counted column
-- ---------------------------------------------------------------------------

omit [LinearOrder δ] [Numerics δ] in
/-- A group is what is left without the column, and the column's value. -/
theorem eq_of_erase_eq {u u' : StatMap δ} {f : String} (he : u.erase f = u'.erase f)
    (hf : u.find? f = u'.find? f) : u = u' := by
  refine OrderedMap.ext_find fun n => ?_
  by_cases hn : n = f
  · rw [hn]
    exact hf
  · have := congrArg (fun m : StatMap δ => m.find? n) he
    simpa only [OrderedMap.find?_erase, if_neg hn] using this

omit [LinearOrder δ] [Numerics δ] in
theorem fillSlots_congr {κ : Type} {lookup lookup' : κ → Option (StatVal δ)} {l : List (κ × Nat)}
    (h : ∀ e ∈ l, lookup e.1 = lookup' e.1) (ukey : SortKey δ) :
    fillSlots lookup l ukey = fillSlots lookup' l ukey := by
  induction l generalizing ukey with
  | nil => rfl
  | cons e rest ih =>
    obtain ⟨col, slot⟩ := e
    simp only [fillSlots, h (col, slot) (List.mem_cons_self ..)]
    split
    · rfl
    · rw [ih fun e he => h e (List.mem_cons_of_mem _ he)]

omit [LinearOrder δ] [Numerics δ] in
/-- A slot no column goes to may be written before or after. -/
theorem fillSlots_set {κ : Type} {lookup : κ → Option (StatVal δ)} {l : List (κ × Nat)} {i : Nat}
    (h : ∀ e ∈ l, e.2 ≠ i) (ukey : SortKey δ) (v : StatVal δ) :
    fillSlots lookup l (ukey.set i v) = (fillSlots lookup l ukey).map fun k => k.set i v := by
  induction l generalizing ukey with
  | nil => rfl
  | cons e rest ih =>
    obtain ⟨col, slot⟩ := e
    have hne : slot ≠ i := h (col, slot) (List.mem_cons_self ..)
    simp only [fillSlots, List.length_set]
    split
    · rfl
    · split
      · rw [List.set_comm _ _ (Ne.symm hne), ih fun e he => h e (List.mem_cons_of_mem _ he)]
      · rfl

/-- What a SELECT must satisfy for its counted column `f` to be dropped cleanly: `f`
is not sorted by, and the hash, which is taken anew without `f`, and the aggregates
of the sort list have their slots. A blank `f` stands for no COUNT_DISTINCT. -/
structure DroppedSelect (S : StatsSelect) (f : String) : Prop where
  status : S.status_ = true
  noT : S.isT_ = false
  field : S.count_distinct_field_ = f
  noBlank : S.unik_cols_.has "" = false
  keepsHash : KeepsHash S
  unsorted : f ≠ "" → S.sort_cols_.find? f = none
  hashFree : f ≠ "" → ∀ e ∈ S.sort_cols_.entries, e.2 ≠ S.hash_slot
  slots : ∀ x ∈ S.agg_sort_cols_.entries, x.2 ≤ S.hash_slot

/-- The group of a row in the result. -/
def groupOf (S : StatsSelect) (f : String) (s : Sample δ) : StatMap δ := (buildUniks S s).erase f

/-- The row has a value of the counted column. -/
def HasCounted (S : StatsSelect) (f : String) (s : Sample δ) : Prop :=
  ((buildUniks S s).find? f).isSome = true

/-- The key of the count. -/
def distinctKey (f : String) : AggKey := aggkey .COUNT_DISTINCT f

/-- What an entry of an instance contributes at the final merge. -/
def dropped (f : String) (b : StatMap δ × AggRow δ) : StatMap δ × AggRow δ :=
  (b.1.erase f,
    if (b.1.find? f).isSome then b.2.insert (distinctKey f) (.uint64 1) else b.2)

/-- The group maps the final merge deals with: those of the rows, with the
counted column and without. -/
def Occurs (S : StatsSelect) (f : String) (rows : List (Sample δ)) (u : StatMap δ) : Prop :=
  ∃ s ∈ rows, u = buildUniks S s ∨ u = groupOf S f s

section

variable {hash_range : StatMap δ → Fin (2 ^ 64)} {S : StatsSelect} {f : String}
  {rows : List (Sample δ)}

omit [LinearOrder δ] [Numerics δ] in
/-- Without the column the key only changes in the hash slot. -/
theorem buildKey_erase (hD : DroppedSelect S f) (hf : f ≠ "") {u : StatMap δ} {ukey : SortKey δ}
    (h : buildKey hash_range S u = some ukey) :
    buildKey hash_range S (u.erase f) =
      some (ukey.set (ukey.length - 1) (.uint64 (hash_range (u.erase f)))) := by
  have hcongr : ∀ e ∈ S.sort_cols_.entries, (u.erase f).find? e.1 = u.find? e.1 := by
    intro e he
    have hne : e.1 ≠ f := by
      intro heq
      have hnone := hD.unsorted hf
      rw [← heq, OrderedMap.mem_entries.mp he] at hnone
      cases hnone
    rw [OrderedMap.find?_erase, if_neg hne]
  have hfresh : freshKey hash_range S (u.erase f) =
      (freshKey hash_range S u).set S.hash_slot (.uint64 (hash_range (u.erase f))) := by
    unfold freshKey
    rw [List.set_append_right _ _ (by simp)]
    simp
  have hlen := buildKey_length hash_range S h
  unfold buildKey at h ⊢
  rw [fillSlots_congr hcongr, hfresh, fillSlots_set (hD.hashFree hf), h, hlen]
  rfl

omit [LinearOrder δ] [Numerics δ] in
theorem DroppedSelect.find?_blank (hD : DroppedSelect S f) (s : Sample δ) :
    (buildUniks S s).find? "" = none :=
  buildUniks_find?_blank hD.noT hD.noBlank s

omit [LinearOrder δ] [Numerics δ] in
theorem buildKey_groupOf (hD : DroppedSelect S f) {s : Sample δ}
    (h : (buildKey hash_range S (buildUniks S s)).isSome = true) :
    (buildKey hash_range S (groupOf S f s)).isSome = true := by
  by_cases hf : f = ""
  · subst hf
    rwa [groupOf, OrderedMap.erase_eq_self (hD.find?_blank s)]
  · obtain ⟨ukey, hukey⟩ := Option.isSome_iff_exists.mp h
    rw [groupOf, buildKey_erase hD hf hukey]
    rfl

/-- Rows load, and no two of their group maps share a hash. -/
structure RowsLoad (hash_range : StatMap δ → Fin (2 ^ 64)) (S : StatsSelect) (f : String)
    (rows : List (Sample δ)) : Prop where
  loads : ∀ s ∈ rows, (buildKey hash_range S (buildUniks S s)).isSome = true
  hashes : ∀ u u', Occurs S f rows u → Occurs S f rows u' → hash_range u = hash_range u' → u = u'

omit [LinearOrder δ] [Numerics δ] in
/-- The keys of the final merge tell its groups apart. -/
theorem RowsLoad.groupOf_injective (h : RowsLoad hash_range S f rows)
    (hslots : (S.sort_cols_.entries.map Prod.snd).Nodup) (hD : DroppedSelect S f) {s s' : Sample δ}
    (hs : s ∈ rows) (hs' : s' ∈ rows)
    (heq : keyOf hash_range S (groupOf S f s) = keyOf hash_range S (groupOf S f s')) :
    groupOf S f s = groupOf S f s' := by
  have hload := h.loads s hs
  have hload' := h.loads s' hs'
  by_cases hf : f = ""
  · subst hf
    have hsame : ∀ s : Sample δ, groupOf S "" s = buildUniks S s := fun s =>
      OrderedMap.erase_eq_self (hD.find?_blank s)
    rw [hsame, hsame] at heq ⊢
    exact keyOf_injective hslots hD.noT hD.keepsHash
      (h.hashes _ _ ⟨s, hs, Or.inl rfl⟩ ⟨s', hs', Or.inl rfl⟩) hload hload' heq
  · exact h.hashes _ _ ⟨s, hs, Or.inr rfl⟩ ⟨s', hs', Or.inr rfl⟩
      (hash_eq_of_keyOf_eq (hD.hashFree hf) (buildKey_groupOf hD hload)
        (buildKey_groupOf hD hload') heq)

omit [LinearOrder δ] [Numerics δ] in
theorem dropDistinct_eq (hD : DroppedSelect S f) {e : SortKey δ × (StatMap δ × AggRow δ)}
    (hblank : e.2.1.find? "" = none) (hkey : buildKey hash_range S e.2.1 = some e.1) :
    dropDistinct hash_range f e = (keyOf hash_range S (e.2.1.erase f), dropped f e.2) := by
  unfold dropDistinct dropped keyOf
  cases hfind : e.2.1.find? f with
  | none =>
    rw [OrderedMap.erase_eq_self hfind, hkey]
    rfl
  | some v =>
    have hf : f ≠ "" := by
      rintro rfl
      rw [hblank] at hfind
      cases hfind
    rw [buildKey_erase hD hf hkey]
    rfl

theorem mergeInputs_eq (field : String) (inputs : List (MapBuf δ)) (out : MapBuf δ) :
    mergeInputs hash_range field inputs out = out.mergeAll sameUniks mergeAggs
      ((inputs.flatMap fun m => m.entries).map (dropDistinct hash_range field)) := by
  unfold mergeInputs Multimap.mergeAll
  induction inputs generalizing out with
  | nil => rfl
  | cons m inputs ih =>
    rw [List.foldlM_cons, List.flatMap_cons, List.map_append, List.foldlM_append]
    have hone : Merge hash_range field m out =
        (m.entries.map (dropDistinct hash_range field)).foldlM
          (fun out e => out.mergeEntry sameUniks mergeAggs e.1 e.2) out := by
      rw [List.foldlM_map]
      rfl
    rw [hone]
    exact bind_congr fun out' => ih out'

end

-- ---------------------------------------------------------------------------
-- Kinds of values
-- ---------------------------------------------------------------------------

/-- The kinds of values that the merge routines tell apart. -/
inductive ValueKind where
  | uint64 | double | other
  deriving DecidableEq

def valueKind : StatVal δ → ValueKind
  | .uint64 _ => .uint64
  | .double _ => .double
  | _ => .other

/-- The type of an aggregate when the column `n` holds values of kind `kind n`. -/
def Kinded (kind : String → ValueKind) (k : AggKey) (v : StatVal δ) : Prop :=
  match k.oper with
  | .SUM | .MAX | .MIN => valueKind v = kind (AggKey.field k)
  | .COUNT | .COUNT_DISTINCT => ∃ n, v = .uint64 n
  | .AVG => ∃ log, v = .centroid log
  | .PERCENTILES => ∃ log, v = .tdigest log
  | .INVALID | .CLASS => True

/-- The values of the aggregate are unsigned. -/
def UnsignedAt (kind : String → ValueKind) (k : AggKey) : Prop :=
  k.oper = .SUM ∨ k.oper = .MAX ∨ k.oper = .MIN → kind (AggKey.field k) = .uint64

omit [LinearOrder δ] [Numerics δ] in
theorem Kinded.exists_uint64 {kind : String → ValueKind} {k : AggKey} {v : StatVal δ}
    (h : Kinded kind k v) (hop : k.oper.exact = true) (hk : UnsignedAt kind k) :
    ∃ n, v = .uint64 n := by
  have hkind : valueKind v = .uint64 → ∃ n, v = .uint64 n := by
    intro huint
    cases v with
    | uint64 n => exact ⟨n, rfl⟩
    | _ => cases huint
  unfold Kinded at h
  unfold UnsignedAt at hk
  cases hoper : k.oper with
  | SUM | MAX | MIN =>
    rw [hoper] at h
    refine hkind (Eq.trans h (hk ?_))
    simp [hoper]
  | COUNT | COUNT_DISTINCT =>
    rw [hoper] at h
    exact h
  | INVALID | CLASS | PERCENTILES | AVG =>
    rw [hoper] at hop
    cases hop

/-- Every aggregated column holds values of its kind, and AVG and PERCENTILES
are only asked of numbers. -/
def RowKinds (kind : String → ValueKind) (S : StatsSelect) (row : List (StatEntry δ)) : Prop :=
  ∀ it ∈ row, ∀ op, opCols S op it.name = true →
    valueKind it.value = kind it.name ∧ (op.exact = false → kind it.name ≠ .other)

omit [LinearOrder δ] [Numerics δ] in
theorem rowKinds_of_uintRow {S : StatsSelect} {row : List (StatEntry δ)} (h : UIntRow S row) :
    RowKinds (fun _ => .uint64) S row := by
  intro it hit op hop
  obtain ⟨n, hn⟩ := h it hit op hop
  exact ⟨by rw [hn]; rfl, fun _ => by simp⟩

omit [LinearOrder δ] in
theorem loadsAs_of_rowKinds {kind : String → ValueKind} {S : StatsSelect}
    {row : List (StatEntry δ)} (h : RowKinds kind S row) : LoadsAs (Kinded kind) S row where
  plain it hit op hex hop := by
    have hkind := (h it hit op hop).1
    cases op with
    | SUM | MAX | MIN => exact hkind
    | COUNT | COUNT_DISTINCT => cases hop
    | INVALID | CLASS | PERCENTILES | AVG => cases hex
  double it hit op hex hop := by
    obtain ⟨hkind, hne⟩ := h it hit op hop
    have hother : valueKind it.value ≠ .other := hkind ▸ hne hex
    revert hother
    cases it.value with
    | uint64 n => exact fun _ => rfl
    | double d => exact fun _ => rfl
    | _ => exact fun hother => absurd rfl hother
  centroid _ log := ⟨log, rfl⟩
  tdigest _ log := ⟨log, rfl⟩
  hash _ _ := trivial
  count _ n := ⟨n, rfl⟩

omit [LinearOrder δ] [Numerics δ] in
theorem numericOp_kind {fu : Fin (2 ^ 64) → Fin (2 ^ 64) → Fin (2 ^ 64)} {fd : δ → δ → δ}
    {v nv : StatVal δ} (h : valueKind v = valueKind nv) :
    ∃ v', numericOp fu fd v nv = some v' ∧ valueKind v' = valueKind v := by
  cases v with
  | uint64 a =>
    cases nv with
    | uint64 b => exact ⟨_, rfl, rfl⟩
    | _ => cases h
  | double a =>
    cases nv with
    | double b => exact ⟨_, rfl, rfl⟩
    | _ => cases h
  | _ => exact ⟨_, rfl, rfl⟩

theorem mergeVal_kinded {kind : String → ValueKind} {k : AggKey} {v nv : StatVal δ}
    (hv : Kinded kind k v) (hnv : Kinded kind k nv) :
    ∃ v', mergeVal k.oper v nv = some v' ∧ Kinded kind k v' := by
  unfold Kinded at *
  cases hop : k.oper with
  | SUM | MAX | MIN =>
    rw [hop] at hv hnv
    obtain ⟨v', hv', hk⟩ := numericOp_kind (hv.trans hnv.symm)
    exact ⟨v', hv', hk.trans hv⟩
  | COUNT | COUNT_DISTINCT | AVG | PERCENTILES =>
    rw [hop] at hv hnv
    obtain ⟨a, rfl⟩ := hv
    obtain ⟨b, rfl⟩ := hnv
    exact ⟨_, rfl, _, rfl⟩
  | INVALID | CLASS => exact ⟨v, rfl, trivial⟩

-- ---------------------------------------------------------------------------
-- What an entry was merged from
-- ---------------------------------------------------------------------------

/-- The number of contributions that have any aggregates. -/
def contributing (cs : List (StatMap δ × AggRow δ)) : Nat := cs.countP fun c => !c.2.isEmpty

/-- What is known of the count of a group: nobody counts, each contribution with
aggregates counts one, or nothing is known. -/
inductive Counting where
  | never | each | unknown

/-- The count `n` as it stands in an entry; a count of zero does not. -/
def countValue (n : Nat) : Option (StatVal δ) :=
  if n = 0 then none else some (.uint64 (Fin.ofNat (2 ^ 64) n))

def CountIs (f : String) (n : Nat) (a : AggRow δ) : Counting → Prop
  | .never => a.find? (distinctKey f) = none
  | .each => a.find? (distinctKey f) = countValue n
  | .unknown => True

/-- The entry `b` was merged from `cs`: unless it has no aggregates at all it has
those that reach its group, each with its total, and its count is as `counting`
has it. -/
structure MergedFrom (kind : StatMap δ → String → ValueKind) (f : String)
    (reach : StatMap δ → AggKey → Prop) (counting : StatMap δ → Counting)
    (cs : List (StatMap δ × AggRow δ)) (b : StatMap δ × AggRow δ) : Prop where
  ne_nil : cs ≠ []
  group_eq : ∀ c ∈ cs, c.1 = b.1
  kinded : ∀ k v, b.2.find? k = some v → Kinded (kind b.1) k v
  isEmpty : b.2.isEmpty = true ↔ ∀ c ∈ cs, c.2.isEmpty = true
  keys : b.2.isEmpty = false → ∀ k, reach b.1 k → (b.2.find? k).isSome = true
  total : ∀ k n, reach b.1 k → k.oper.exact = true → b.2.find? k = some (.uint64 n) →
    TotalOf k.oper n (valuesAt k cs)
  count : CountIs f (contributing cs) b.2 (counting b.1)

omit [LinearOrder δ] [Numerics δ] in
theorem contributing_append (cs cs' : List (StatMap δ × AggRow δ)) :
    contributing (cs ++ cs') = contributing cs + contributing cs' :=
  List.countP_append

omit [LinearOrder δ] in
/-- Numbers only come out of numbers. -/
theorem mergeVal_eq_uint64 [LinearOrder δ] {op : AggOper} (hop : op.exact = true)
    {sv nv : StatVal δ} {n : Fin (2 ^ 64)} (h : mergeVal op sv nv = some (.uint64 n)) :
    ∃ a b, sv = .uint64 a ∧ nv = .uint64 b ∧ n = combine op a b := by
  cases op with
  | SUM | MAX | MIN =>
    cases sv with
    | uint64 a =>
      cases nv with
      | uint64 b => exact ⟨a, b, rfl, rfl, (StatVal.uint64.inj (Option.some.inj h)).symm⟩
      | _ => cases h
    | double d => cases nv <;> cases h
    | _ => cases h
  | COUNT | COUNT_DISTINCT =>
    cases sv with
    | uint64 a =>
      cases nv with
      | uint64 b => exact ⟨a, b, rfl, rfl, (StatVal.uint64.inj (Option.some.inj h)).symm⟩
      | _ => cases h
    | _ => cases h
  | INVALID | CLASS | PERCENTILES | AVG => cases hop

section

variable {kind : StatMap δ → String → ValueKind} {f : String} {reach : StatMap δ → AggKey → Prop}
  {counting : StatMap δ → Counting}

omit [LinearOrder δ] [Numerics δ] in
theorem MergedFrom.exists_contributing {cs : List (StatMap δ × AggRow δ)} {b : StatMap δ × AggRow δ}
    (h : MergedFrom kind f reach counting cs b) (hne : b.2.isEmpty = false) :
    ∃ c ∈ cs, c.2.isEmpty = false := by
  by_contra hall
  push Not at hall
  rw [h.isEmpty.mpr fun c hc => by simpa using hall c hc] at hne
  cases hne

omit [LinearOrder δ] [Numerics δ] in
/-- The counts of two entries of a group, merged. -/
theorem countIs_merge {m : Counting} {n n' : Nat} {a a' r : AggRow δ} (hn : n ≠ 0)
    (h : CountIs f n a m) (h' : CountIs f n' a' m)
    (hkeys : (r.find? (distinctKey f)).isSome = true ↔ (a.find? (distinctKey f)).isSome = true)
    (hkeep : a'.find? (distinctKey f) = none → r.find? (distinctKey f) = a.find? (distinctKey f))
    (hadd : ∀ x y, a.find? (distinctKey f) = some (.uint64 x) →
      a'.find? (distinctKey f) = some (.uint64 y) →
      r.find? (distinctKey f) = some (.uint64 (x + y))) : CountIs f (n + n') r m := by
  cases m with
  | never =>
    show r.find? _ = none
    rw [← Option.not_isSome_iff_eq_none, hkeys, show a.find? (distinctKey f) = none from h]
    exact Bool.false_ne_true
  | each =>
    have ha : a.find? (distinctKey f) = some (.uint64 (Fin.ofNat (2 ^ 64) n)) :=
      Eq.trans h (if_neg hn)
    have ha' : a'.find? (distinctKey f) = countValue n' := h'
    show r.find? _ = countValue (n + n')
    unfold countValue at ha' ⊢
    rw [if_neg (show n + n' ≠ 0 by omega)]
    by_cases hn' : n' = 0
    · rw [if_pos hn'] at ha'
      rw [hkeep ha', ha, hn', Nat.add_zero]
    · rw [if_neg hn'] at ha'
      have hsum : Fin.ofNat (2 ^ 64) n + Fin.ofNat (2 ^ 64) n' = Fin.ofNat (2 ^ 64) (n + n') := by
        refine Fin.ext ?_
        rw [Fin.val_add]
        exact (Nat.add_mod ..).symm
      rw [hadd _ _ ha ha', hsum]
  | unknown => trivial

theorem mergedFrom_merge {cs cs' : List (StatMap δ × AggRow δ)} {b b' : StatMap δ × AggRow δ}
    (h : MergedFrom kind f reach counting cs b) (h' : MergedFrom kind f reach counting cs' b')
    (hg : b.1 = b'.1) :
    ∃ b'', mergeAggs b b' = some b'' ∧ MergedFrom kind f reach counting (cs ++ cs') b'' := by
  have hgroup := group_eq_append h.group_eq h'.group_eq hg
  have hnil : cs ++ cs' ≠ [] := fun hnil => h.ne_nil (List.append_eq_nil_iff.mp hnil).1
  by_cases hempty : b.2.isEmpty = true
  · -- nothing there yet: the new entry is taken as it is
    have hcs : ∀ c ∈ cs, c.2.isEmpty = true := h.isEmpty.mp hempty
    have hzero : contributing cs = 0 := List.countP_eq_zero.mpr fun c hc => by simp [hcs c hc]
    refine ⟨(b.1, b'.2), by simp [mergeAggs, MergeAggRow, hempty], hnil, hgroup, ?_, ?_, ?_, ?_, ?_⟩
    · exact hg ▸ h'.kinded
    · rw [h'.isEmpty]
      simp only [List.mem_append]
      exact ⟨fun hall c hc => hc.elim (hcs c) (hall c), fun hall c hc => hall c (Or.inr hc)⟩
    · exact hg ▸ h'.keys
    · intro k n hk hop hfind
      rw [valuesAt_append, valuesAt_eq_nil hcs, List.nil_append]
      exact h'.total k n (hg ▸ hk) hop hfind
    · rw [contributing_append, hzero, Nat.zero_add]
      exact hg ▸ h'.count
  · have hne : b.2.isEmpty = false := Bool.eq_false_iff.mpr hempty
    have hkinded' : ∀ k v, b'.2.find? k = some v → Kinded (kind b.1) k v := hg ▸ h'.kinded
    obtain ⟨r, hr, hfind, hkinded, hkeys⟩ :=
      find?_mergeAggRow (fun _ _ _ => mergeVal_kinded) h.kinded hkinded' hne
    obtain ⟨c₀, hc₀, hc₀ne⟩ := h.exists_contributing hne
    refine ⟨(b.1, r), by simp [mergeAggs, hr], hnil, hgroup, hkinded, ?_,
      fun _ k hk => (hkeys k).mpr (h.keys hne k hk), ?_, ?_⟩
    · rw [isEmpty_eq_false_of_keys hne hkeys]
      simp only [Bool.false_eq_true, false_iff, not_forall]
      exact ⟨c₀, List.mem_append_left _ hc₀, by simp [hc₀ne]⟩
    · intro k n hk hop hval
      rw [hfind k] at hval
      obtain ⟨sv, hsv, hval⟩ := Option.bind_eq_some_iff.mp hval
      rw [valuesAt_append]
      cases hnv : b'.2.find? k with
      | none =>
        -- only an entry without aggregates lacks one that reaches the group
        have hempty' : b'.2.isEmpty = true := by
          by_contra hne'
          have hsome := h'.keys (Bool.eq_false_iff.mpr hne') k (hg ▸ hk)
          rw [hnv] at hsome
          cases hsome
        simp only [hnv] at hval
        rw [valuesAt_eq_nil (h'.isEmpty.mp hempty'), List.append_nil]
        exact h.total k n hk hop (hsv.trans hval)
      | some nv =>
        simp only [hnv] at hval
        obtain ⟨x, y, rfl, rfl, rfl⟩ := mergeVal_eq_uint64 hop hval
        exact (h.total k x hk hop hsv).combine (h'.total k y (hg ▸ hk) hop hnv)
    · have hpos : contributing cs ≠ 0 := by
        have hlt : 0 < contributing cs := List.countP_pos_iff.mpr ⟨c₀, hc₀, by simp [hc₀ne]⟩
        omega
      rw [contributing_append]
      refine countIs_merge hpos h.count (hg ▸ h'.count) (hkeys _) ?_ ?_
      · intro hnone
        rw [hfind, hnone]
        exact Option.bind_fun_some _
      · intro x y hx hy
        rw [hfind, hx, hy]
        rfl

theorem mergedFrom_isTotal :
    IsTotal Prod.fst Prod.fst mergeAggs (MergedFrom kind f reach counting) where
  ne_nil h := h.ne_nil
  group_eq h := h.group_eq
  merge_group h := by
    obtain ⟨r, -, rfl⟩ := Option.map_eq_some_iff.mp h
    rfl
  merge_total := mergedFrom_merge

end

-- ---------------------------------------------------------------------------
-- From the rows to the entries of the final merge
-- ---------------------------------------------------------------------------

/-- The aggregate `k` reaches the result's row of group `g`, however the rows in
the instances `parts` come: some row of the group contributes it, a row of the
group that contributes anything contributes it, and where a value of the counted
column has an entry in an instance, some row of that entry contributes it. -/
structure Reaches (S : StatsSelect) (f : String) (parts : List (List (Sample δ)))
    (g : StatMap δ) (k : AggKey) : Prop where
  present : ∃ l ∈ parts, ∃ s ∈ l, groupOf S f s = g ∧ Contributes S s.row k
  whole : ∀ l ∈ parts, ∀ s ∈ l, groupOf S f s = g → ∀ k', Contributes S s.row k' →
    Contributes S s.row k
  entries : ∀ l ∈ parts, ∀ s ∈ l, groupOf S f s = g → HasCounted S f s →
    ∃ s' ∈ l, buildUniks S s' = buildUniks S s ∧ Contributes S s'.row k

omit [LinearOrder δ] [Numerics δ] in
theorem reaches_of_all {S : StatsSelect} {f : String} {parts : List (List (Sample δ))}
    {rows : List (Sample δ)} (hplanned : parts.flatten.Perm rows) {g : StatMap δ} {k : AggKey}
    (hg : ∃ s ∈ rows, groupOf S f s = g)
    (hall : ∀ s ∈ rows, groupOf S f s = g → Contributes S s.row k) : Reaches S f parts g k := by
  have hmem : ∀ l ∈ parts, ∀ s ∈ l, s ∈ rows := fun l hl s hs =>
    hplanned.mem_iff.mp (List.mem_flatten_of_mem hl hs)
  obtain ⟨s, hs, hsg⟩ := hg
  obtain ⟨l, hl, hsl⟩ := List.mem_flatten.mp (hplanned.mem_iff.mpr hs)
  exact ⟨⟨l, hl, s, hsl, hsg, hall s hs hsg⟩,
    fun l hl s' hs' hg _ _ => hall s' (hmem l hl s' hs') hg,
    fun l hl s' hs' hg _ => ⟨s', hs', rfl, hall s' (hmem l hl s' hs') hg⟩⟩

/-- When the count of a group is `counting`: no row has the counted column, or the
rows without it contribute nothing. -/
def CountsAs (S : StatsSelect) (f : String) (parts : List (List (Sample δ))) (g : StatMap δ) :
    Counting → Prop
  | .never => ∀ l ∈ parts, ∀ s ∈ l, groupOf S f s = g → ¬ HasCounted S f s
  | .each => ∀ l ∈ parts, ∀ s ∈ l, groupOf S f s = g → ¬ HasCounted S f s →
      ∀ k, ¬ Contributes S s.row k
  | .unknown => True

/-- What is assumed of the rows of the instances `parts`: they load, the values of
an aggregated column are of one kind in each group, and the aggregates `reach` and
the counts are as said. -/
structure PartsMerge (hash_range : StatMap δ → Fin (2 ^ 64)) (S : StatsSelect) (f : String)
    (kind : StatMap δ → String → ValueKind) (reach : StatMap δ → AggKey → Prop)
    (counting : StatMap δ → Counting) (parts : List (List (Sample δ))) (rows : List (Sample δ)) :
    Prop where
  planned : parts.flatten.Perm rows
  load : RowsLoad hash_range S f rows
  kinds : ∀ s ∈ rows, RowKinds (kind (groupOf S f s)) S s.row
  reached : ∀ s ∈ rows, ∀ k, reach (groupOf S f s) k → Reaches S f parts (groupOf S f s) k
  counted : ∀ s ∈ rows, CountsAs S f parts (groupOf S f s) (counting (groupOf S f s))

/-- An entry of an instance, merged from rows. -/
abbrev InstanceEntry (kind : StatMap δ → String → ValueKind) (f : String)
    (reach : StatMap δ → AggKey → Prop) :
    List (StatMap δ × AggRow δ) → StatMap δ × AggRow δ → Prop :=
  MergedFrom (fun u => kind (u.erase f)) f (fun u => reach (u.erase f)) fun _ => .never

section

variable {hash_range : StatMap δ → Fin (2 ^ 64)} {S : StatsSelect} {f : String}
  {kind : StatMap δ → String → ValueKind} {reach : StatMap δ → AggKey → Prop}
  {counting : StatMap δ → Counting} {parts : List (List (Sample δ))} {rows : List (Sample δ)}

omit [LinearOrder δ] in
theorem contribution_kinded (hash_range : StatMap δ → Fin (2 ^ 64))
    {kind : String → ValueKind} {s : Sample δ} (h : RowKinds kind S s.row) :
    (buildAggs hash_range S (buildUniks S s) s.row).isSome = true ∧
      (∀ k v, (contribution hash_range S s).2.find? k = some v → Kinded kind k v) ∧
      ∀ k, ((contribution hash_range S s).2.find? k).isSome = true ↔ Contributes S s.row k := by
  obtain ⟨a, ha, hkinded, hkeys⟩ :=
    buildAggs_spec hash_range (buildUniks S s) (loadsAs_of_rowKinds h)
  unfold contribution
  rw [ha]
  exact ⟨rfl, hkinded, hkeys⟩

omit [LinearOrder δ] [Numerics δ] in
/-- No row contributes a count of its own. -/
theorem not_contributes_distinct (row : List (StatEntry δ)) :
    ¬ Contributes S row (distinctKey f) := by
  rintro (⟨hop, -⟩ | ⟨hcls, -⟩ | ⟨hcnt, -⟩)
  · cases hop
  · cases hcls
  · cases hcnt

omit [LinearOrder δ] in
theorem PartsMerge.find?_isSome_iff
    (h : PartsMerge hash_range S f kind reach counting parts rows) {s : Sample δ} (hs : s ∈ rows)
    (k : AggKey) :
    ((contribution hash_range S s).2.find? k).isSome = true ↔ Contributes S s.row k :=
  (contribution_kinded hash_range (h.kinds s hs)).2.2 k

omit [LinearOrder δ] in
theorem PartsMerge.isEmpty_eq_false
    (h : PartsMerge hash_range S f kind reach counting parts rows) {s : Sample δ} (hs : s ∈ rows)
    {k : AggKey} (hk : Contributes S s.row k) : (contribution hash_range S s).2.isEmpty = false := by
  rw [Bool.eq_false_iff]
  intro hempty
  have hsome := (h.find?_isSome_iff hs k).mpr hk
  rw [OrderedMap.isEmpty_iff.mp hempty k] at hsome
  cases hsome

omit [LinearOrder δ] in
theorem PartsMerge.exists_contributes
    (h : PartsMerge hash_range S f kind reach counting parts rows) {s : Sample δ} (hs : s ∈ rows)
    (hne : (contribution hash_range S s).2.isEmpty = false) : ∃ k, Contributes S s.row k := by
  rw [Bool.eq_false_iff, ne_eq, OrderedMap.isEmpty_iff] at hne
  push Not at hne
  obtain ⟨k, hk⟩ := hne
  exact ⟨k, (h.find?_isSome_iff hs k).mp (Option.isSome_iff_ne_none.mpr hk)⟩

omit [Numerics δ] [LinearOrder δ] in
theorem PartsMerge.mem_rows (h : PartsMerge hash_range S f kind reach counting parts rows)
    {l : List (Sample δ)} (hl : l ∈ parts) {s : Sample δ} (hs : s ∈ l) : s ∈ rows :=
  h.planned.mem_iff.mp (List.mem_flatten_of_mem hl hs)

theorem PartsMerge.regular (h : PartsMerge hash_range S f kind reach counting parts rows)
    (hslots : (S.sort_cols_.entries.map Prod.snd).Nodup) (hD : DroppedSelect S f) :
    Regular hash_range S (InstanceEntry kind f reach) rows where
  status := hD.status
  loadable s hs := ⟨h.load.loads s hs, (contribution_kinded hash_range (h.kinds s hs)).1⟩
  separated s hs s' hs' heq := by
    refine keyOf_injective hslots hD.noT hD.keepsHash ?_ (h.load.loads s hs)
      (h.load.loads s' hs') heq
    exact h.load.hashes _ _ ⟨s, hs, Or.inl rfl⟩ ⟨s', hs', Or.inl rfl⟩
  isTotal := mergedFrom_isTotal
  single s hs := by
    obtain ⟨-, hkinded, hkeys⟩ := contribution_kinded hash_range (h.kinds s hs)
    refine ⟨List.cons_ne_nil _ _, fun c hc => by rw [List.mem_singleton.mp hc], hkinded,
      by simp, ?_, ?_, ?_⟩
    · intro hne k hk
      obtain ⟨k', hk'⟩ := h.exists_contributes hs hne
      have hreach := h.reached s hs k hk
      obtain ⟨l, hl, hsl⟩ := List.mem_flatten.mp (h.planned.mem_iff.mpr hs)
      exact (hkeys k).mpr (hreach.whole l hl s hsl rfl k' hk')
    · intro k n _ _ hfind
      have hvals : valuesAt k [contribution hash_range S s] = [n] := by
        simp [valuesAt, hfind, asUInt64]
      rw [hvals]
      exact totalOf_singleton _ n
    · show (contribution hash_range S s).2.find? (distinctKey f) = none
      rw [← Option.not_isSome_iff_eq_none, hkeys]
      exact not_contributes_distinct s.row

omit [LinearOrder δ] [Numerics δ] in
theorem find?_dropped (f : String) (b : StatMap δ × AggRow δ) {k : AggKey}
    (hk : k ≠ distinctKey f) : (dropped f b).2.find? k = b.2.find? k := by
  unfold dropped
  dsimp only
  split
  · rw [OrderedMap.find?_insert, if_neg hk]
  · rfl

omit [LinearOrder δ] [Numerics δ] in
/-- An entry with the column comes with a count of one. -/
theorem find?_dropped_distinctKey {f : String} {b : StatMap δ × AggRow δ}
    (hnone : b.2.find? (distinctKey f) = none) :
    (dropped f b).2.find? (distinctKey f) =
      if (b.1.find? f).isSome then some (.uint64 1) else none := by
  unfold dropped
  dsimp only
  split
  · rw [OrderedMap.find?_insert, if_pos rfl, hnone]
    rfl
  · exact hnone

/-- Where each contribution counts one, an entry without the column is empty. -/
theorem PartsMerge.isEmpty_of_each
    (h : PartsMerge hash_range S f kind reach counting parts rows) {l : List (Sample δ)}
    (hl : l ∈ parts) {b : StatMap δ × AggRow δ}
    (hb : InstanceEntry kind f reach (ofGroup Prod.fst b.1 (l.map (contribution hash_range S))) b)
    (hcounts : CountsAs S f parts (b.1.erase f) .each) (hf : ¬ (b.1.find? f).isSome = true) :
    b.2.isEmpty = true := by
  refine hb.isEmpty.mpr fun c hc => ?_
  obtain ⟨hc, hcu⟩ := mem_ofGroup.mp hc
  obtain ⟨s, hs, rfl⟩ := List.mem_map.mp hc
  have hu : buildUniks S s = b.1 := hcu
  by_contra hne
  obtain ⟨k, hk⟩ := h.exists_contributes (h.mem_rows hl hs) (Bool.eq_false_iff.mpr hne)
  refine hcounts l hl s hs ?_ ?_ k hk
  · rw [groupOf, hu]
  · rw [HasCounted, hu]
    exact hf

/-- An entry of an instance, with the column dropped. -/
theorem PartsMerge.dropped_merged (h : PartsMerge hash_range S f kind reach counting parts rows)
    {l : List (Sample δ)} (hl : l ∈ parts) {b : StatMap δ × AggRow δ}
    (hb : InstanceEntry kind f reach (ofGroup Prod.fst b.1 (l.map (contribution hash_range S))) b)
    {s : Sample δ} (hs : s ∈ l) (hu : buildUniks S s = b.1) :
    MergedFrom kind f reach counting [dropped f b] (dropped f b) := by
  have hrow := h.mem_rows hl hs
  have hgroup : b.1.erase f = groupOf S f s := by rw [← hu]; rfl
  have hnone : b.2.find? (distinctKey f) = none := hb.count
  have hcount := find?_dropped_distinctKey hnone
  -- a single entry is merged from itself
  refine ⟨List.cons_ne_nil _ _, fun c hc => by rw [List.mem_singleton.mp hc], ?_, by simp,
    ?_, ?_, ?_⟩
  · -- its values are of their kinds; the count is 1
    intro k v hk
    by_cases heq : k = distinctKey f
    · rw [heq, hcount] at hk
      split at hk
      · rw [heq, ← Option.some.inj hk]
        exact ⟨1, rfl⟩
      · cases hk
    · rw [find?_dropped f b heq] at hk
      exact hb.kinded k v hk
  · intro hne k hk
    have hk : reach (groupOf S f s) k := hgroup ▸ hk
    have hreach := h.reached s hrow k hk
    -- an aggregate it is to have is not the count, so it is as it was
    have hkd : k ≠ distinctKey f := by
      rintro rfl
      obtain ⟨l', -, s', -, -, hc⟩ := hreach.present
      exact not_contributes_distinct s'.row hc
    rw [find?_dropped f b hkd]
    refine hb.keys ?_ k (hgroup ▸ hk)
    by_cases hf : (b.1.find? f).isSome = true
    · -- some row of the entry contributes the aggregate
      obtain ⟨s', hs', hu', hc⟩ := hreach.entries l hl s hs rfl (by rw [HasCounted, hu]; exact hf)
      rw [Bool.eq_false_iff]
      intro hempty
      have hcontrib := h.isEmpty_eq_false (h.mem_rows hl hs') hc
      rw [hb.isEmpty.mp hempty _ (mem_ofGroup.mpr ⟨List.mem_map_of_mem hs', hu'.trans hu⟩)]
        at hcontrib
      cases hcontrib
    · unfold dropped at hne
      rwa [if_neg hf] at hne
  · intro k n _ _ hfind
    -- the total of one value is the value
    have hvals : valuesAt k [dropped f b] = [n] := by simp [valuesAt, hfind, asUInt64]
    rw [hvals]
    exact totalOf_singleton _ n
  · -- the count: none, one for the entry, or unknown
    have hcounts := h.counted s hrow
    show CountIs f _ _ (counting (b.1.erase f))
    rw [hgroup]
    revert hcounts
    cases counting (groupOf S f s) with
    | never =>
      intro hcounts
      have hf : ¬ (b.1.find? f).isSome = true := by
        rw [← hu]
        exact hcounts l hl s hs rfl
      show (dropped f b).2.find? (distinctKey f) = none
      rw [hcount, if_neg hf]
    | each =>
      intro hcounts
      show (dropped f b).2.find? (distinctKey f) = countValue _
      rw [hcount]
      by_cases hf : (b.1.find? f).isSome = true
      · have hne : (dropped f b).2.isEmpty = false := by
          rw [Bool.eq_false_iff]
          intro hempty
          rw [OrderedMap.isEmpty_iff.mp hempty, if_pos hf] at hcount
          cases hcount
        have hone : contributing [dropped f b] = 1 := by simp [contributing, hne]
        rw [if_pos hf, hone]
        rfl
      · have hempty : b.2.isEmpty = true := h.isEmpty_of_each hl hb (hgroup.symm ▸ hcounts) hf
        have hzero : contributing [dropped f b] = 0 := by
          simp [contributing, dropped, hf, hempty]
        rw [if_neg hf, hzero]
        rfl
    | unknown => exact fun _ => trivial

/-- With nothing cut, each instance ends with the totals of its rows. -/
theorem runInstances_all {Total : List (StatMap δ × AggRow δ) → StatMap δ × AggRow δ → Prop}
    (hR : Regular hash_range S Total rows)
    (hblank : ∀ s ∈ rows, (buildUniks S s).find? "" = none)
    {plan : List (List (List (Sample δ)))}
    (hsub : ∀ chunks ∈ plan, ∀ chunk ∈ chunks, ∀ s ∈ chunk, s ∈ rows) {limit : Nat}
    (hsmall : limit = 0 ∨ ∀ chunks ∈ plan, ∀ chunk ∈ chunks, groupCount S chunk ≤ limit) :
    ∃ ms, plan.mapM (runInstance hash_range S limit) = some ms ∧
      HoldAll hash_range S Total ms
        (plan.map fun chunks => chunks.flatten.map (contribution hash_range S)) := by
  obtain ⟨ms, hms, hreps⟩ := runInstances_represent hR hblank limit hsub
  refine ⟨ms, hms, ?_⟩
  have hparts : ∀ chunks ∈ plan, chunks.flatMap (kept hash_range S limit) =
      chunks.flatten.map (contribution hash_range S) := by
    intro chunks hchunks
    rw [List.flatMap_congr fun chunk hchunk => kept_of_small hR (hsub chunks hchunks chunk hchunk)
      (hsmall.imp id fun h => h chunks hchunks chunk hchunk), List.flatMap_def, List.map_flatten]
  rwa [List.map_congr_left hparts] at hreps

/-- The entries of the instances, in the order `MergeFinal` takes them. -/
def instanceEntries (ms : List (MapBuf δ)) : List (SortKey δ × (StatMap δ × AggRow δ)) :=
  ms.flatMap fun m => m.entries

/-- An instance entry was merged from rows of one instance and stands under the key
of its group. -/
theorem PartsMerge.mem_instanceEntries
    (h : PartsMerge hash_range S f kind reach counting parts rows) {ms : List (MapBuf δ)}
    (hin : HoldAll hash_range S (InstanceEntry kind f reach) ms
      (parts.map fun l => l.map (contribution hash_range S)))
    {e : SortKey δ × (StatMap δ × AggRow δ)} (he : e ∈ instanceEntries ms) :
    ∃ l ∈ parts, ∃ s ∈ l, buildUniks S s = e.2.1 ∧ buildKey hash_range S e.2.1 = some e.1 ∧
      InstanceEntry kind f reach (ofGroup Prod.fst e.2.1 (l.map (contribution hash_range S))) e.2 := by
  obtain ⟨m, hm, he⟩ := List.mem_flatMap.mp he
  obtain ⟨cs, hcs, hrep⟩ := forall₂_exists_right hin hm
  obtain ⟨l, hl, rfl⟩ := List.mem_map.mp hcs
  obtain ⟨c, hc, hce⟩ := hrep.exists_contribution mergedFrom_isTotal he
  obtain ⟨s, hs, rfl⟩ := List.mem_map.mp hc
  refine ⟨l, hl, s, hs, hce, ?_, hrep.total e he⟩
  rw [hrep.keyed.key_eq e he, ← hce]
  exact buildKey_eq_keyOf hash_range S (h.load.loads s (h.mem_rows hl hs))

/-- Every row has its entry in its instance. -/
theorem exists_instanceEntry {Total : List (StatMap δ × AggRow δ) → StatMap δ × AggRow δ → Prop}
    {ms : List (MapBuf δ)}
    (hin : HoldAll hash_range S Total ms (parts.map fun l => l.map (contribution hash_range S)))
    {l : List (Sample δ)} (hl : l ∈ parts) {s : Sample δ} (hs : s ∈ l) :
    ∃ e ∈ instanceEntries ms, e.2.1 = buildUniks S s ∧
      Total (ofGroup Prod.fst e.2.1 (l.map (contribution hash_range S))) e.2 := by
  obtain ⟨m, hm, hrep⟩ := forall₂_exists_right (List.Forall₂.flip hin) (List.mem_map_of_mem hl)
  obtain ⟨e, he, hu⟩ := hrep.covered (contribution hash_range S s) (List.mem_map_of_mem hs)
  exact ⟨e, List.mem_flatMap.mpr ⟨m, hm, he⟩, hu, hrep.total e he⟩

/-- The final merge holds what the entries of all instances come to. -/
theorem mergeFinal_represents (hslots : (S.sort_cols_.entries.map Prod.snd).Nodup)
    (hD : DroppedSelect S f) (h : PartsMerge hash_range S f kind reach counting parts rows)
    {ms : List (MapBuf δ)}
    (hin : HoldAll hash_range S (InstanceEntry kind f reach) ms
      (parts.map fun l => l.map (contribution hash_range S))) :
    ∃ m, mergeInputs hash_range f ms .empty = some m ∧
      Holds hash_range S (MergedFrom kind f reach counting) m
        ((instanceEntries ms).map fun e => dropped f e.2) ∧
      ∀ e ∈ m.entries, buildKey hash_range S e.2.1 = some e.1 := by
  have hdrop : (instanceEntries ms).map (dropDistinct hash_range f) =
      (instanceEntries ms).map fun e => (keyOf hash_range S (e.2.1.erase f), dropped f e.2) := by
    refine List.map_congr_left fun e he => ?_
    obtain ⟨l, -, s, -, hu, hkey, -⟩ := h.mem_instanceEntries hin he
    exact dropDistinct_eq hD (hu ▸ hD.find?_blank s) hkey
  have hes : ∀ e ∈ (instanceEntries ms).map fun e =>
      (keyOf hash_range S (e.2.1.erase f), dropped f e.2),
      e.1 = keyOf hash_range S e.2.1 ∧ MergedFrom kind f reach counting [e.2] e.2 ∧
        ∃ s ∈ rows, e.2.1 = groupOf S f s := by
    intro e he
    obtain ⟨e₀, he₀, rfl⟩ := List.mem_map.mp he
    obtain ⟨l, hl, s, hs, hu, -, htotal⟩ := h.mem_instanceEntries hin he₀
    exact ⟨rfl, h.dropped_merged hl htotal hs hu, s, h.mem_rows hl hs,
      congrArg (fun u => u.erase f) hu.symm⟩
  obtain ⟨m, hm, hrep⟩ := represents_mergeTotals mergedFrom_isTotal sameUniks_iff
    (U := fun g => ∃ s ∈ rows, g = groupOf S f s)
    (by
      rintro g g' ⟨s, hs, rfl⟩ ⟨s', hs', rfl⟩ heq
      exact h.load.groupOf_injective hslots hD hs hs' heq)
    (fun e => [e.2]) hes represents_empty (fun c hc => absurd hc (by simp))
  rw [List.nil_append, List.flatMap_map] at hrep
  have hrep : Holds hash_range S (MergedFrom kind f reach counting) m
      ((instanceEntries ms).map fun e => dropped f e.2) := by
    rwa [← List.flatMap_singleton' (List.map _ _), List.flatMap_map]
  refine ⟨m, by rw [mergeInputs_eq]; exact hdrop ▸ hm, hrep, fun e he => ?_⟩
  obtain ⟨c, hc, hce⟩ := hrep.exists_contribution mergedFrom_isTotal he
  obtain ⟨e₀, he₀, rfl⟩ := List.mem_map.mp hc
  obtain ⟨l, hl, s, hs, hu, -, -⟩ := h.mem_instanceEntries hin he₀
  have hg : e.2.1 = groupOf S f s := by
    rw [← hce, groupOf, hu]
    rfl
  rw [hrep.keyed.key_eq e he, hg]
  exact buildKey_eq_keyOf hash_range S
    (buildKey_groupOf hD (h.load.loads s (h.mem_rows hl hs)))

-- ---------------------------------------------------------------------------
-- What the final entries report of the rows
-- ---------------------------------------------------------------------------

/-- The groups of the final merge are the groups of the rows. -/
theorem PartsMerge.groups (h : PartsMerge hash_range S f kind reach counting parts rows)
    {ms : List (MapBuf δ)}
    (hin : HoldAll hash_range S (InstanceEntry kind f reach) ms
      (parts.map fun l => l.map (contribution hash_range S))) {m : MapBuf δ}
    (hm : Holds hash_range S (MergedFrom kind f reach counting) m
      ((instanceEntries ms).map fun e => dropped f e.2)) (g : StatMap δ) :
    (∃ e ∈ m.entries, e.2.1 = g) ↔ ∃ s ∈ rows, groupOf S f s = g := by
  constructor
  · rintro ⟨e, he, rfl⟩
    obtain ⟨c, hc, hce⟩ := hm.exists_contribution mergedFrom_isTotal he
    obtain ⟨e₀, he₀, rfl⟩ := List.mem_map.mp hc
    obtain ⟨l, hl, s, hs, hu, -, -⟩ := h.mem_instanceEntries hin he₀
    refine ⟨s, h.mem_rows hl hs, ?_⟩
    rw [groupOf, hu]
    exact hce
  · rintro ⟨s, hs, rfl⟩
    obtain ⟨l, hl, hs⟩ := List.mem_flatten.mp (h.planned.mem_iff.mpr hs)
    obtain ⟨e₀, he₀, hu, -⟩ := exists_instanceEntry hin hl hs
    obtain ⟨e, he, hg⟩ := hm.covered (dropped f e₀.2) (List.mem_map_of_mem he₀)
    exact ⟨e, he, hg.trans (congrArg (fun u => u.erase f) hu)⟩

/-- An aggregate that reaches the group is in its entry. -/
theorem PartsMerge.find?_isSome (h : PartsMerge hash_range S f kind reach counting parts rows)
    {ms : List (MapBuf δ)}
    (hin : HoldAll hash_range S (InstanceEntry kind f reach) ms
      (parts.map fun l => l.map (contribution hash_range S))) {m : MapBuf δ}
    (hm : Holds hash_range S (MergedFrom kind f reach counting) m
      ((instanceEntries ms).map fun e => dropped f e.2))
    {e : SortKey δ × (StatMap δ × AggRow δ)} (he : e ∈ m.entries) {k : AggKey}
    (hk : reach e.2.1 k) : (e.2.2.find? k).isSome = true := by
  obtain ⟨s₀, hs₀, hg₀⟩ := (h.groups hin hm e.2.1).mp ⟨e, he, rfl⟩
  obtain ⟨l, hl, s, hs, hg, hc⟩ := (h.reached s₀ hs₀ k (hg₀ ▸ hk)).present
  -- the row's entry in its instance has the aggregate
  obtain ⟨e₀, he₀, hu, htotal⟩ := exists_instanceEntry hin hl hs
  have hgroup : e₀.2.1.erase f = e.2.1 := by
    rw [hu, ← hg₀]
    exact hg
  have hsome : (e₀.2.2.find? k).isSome = true := by
    refine htotal.keys ?_ k (hgroup.symm ▸ hk)
    rw [Bool.eq_false_iff]
    intro hempty
    have hcontrib := h.isEmpty_eq_false (h.mem_rows hl hs) hc
    rw [htotal.isEmpty.mp hempty _ (mem_ofGroup.mpr ⟨List.mem_map_of_mem hs, hu.symm⟩)] at hcontrib
    cases hcontrib
  have hkd : k ≠ distinctKey f := by
    rintro rfl
    exact not_contributes_distinct s.row hc
  have hmem : dropped f e₀.2 ∈ ofGroup Prod.fst e.2.1
      ((instanceEntries ms).map fun e => dropped f e.2) :=
    mem_ofGroup.mpr ⟨List.mem_map_of_mem he₀, hgroup⟩
  refine (hm.total e he).keys ?_ k hk
  rw [Bool.eq_false_iff]
  intro hempty
  have hnone := OrderedMap.isEmpty_iff.mp ((hm.total e he).isEmpty.mp hempty _ hmem) k
  rw [find?_dropped f e₀.2 hkd] at hnone
  rw [hnone] at hsome
  cases hsome

/-- The unsigned values that the rows of a group contribute to an aggregate. -/
def valuesOf (hash_range : StatMap δ → Fin (2 ^ 64)) (S : StatsSelect) (f : String) (k : AggKey)
    (g : StatMap δ) (rows : List (Sample δ)) : List (Fin (2 ^ 64)) :=
  valuesAt k ((rows.filter fun s => groupOf S f s = g).map (contribution hash_range S))

/-- The entries of one instance in a group share out the group's rows. -/
theorem Holds.valuesOf_perm
    {Total : List (StatMap δ × AggRow δ) → StatMap δ × AggRow δ → Prop} {l : List (Sample δ)}
    {m : MapBuf δ} (hm : Holds hash_range S Total m (l.map (contribution hash_range S)))
    (k : AggKey) (g : StatMap δ) :
    ((m.entries.filter fun e => e.2.1.erase f = g).flatMap fun e =>
      valuesAt k (ofGroup Prod.fst e.2.1 (l.map (contribution hash_range S)))).Perm
      (valuesOf hash_range S f k g l) := by
  have hgroup : ∀ e ∈ m.entries.filter fun e => e.2.1.erase f = g,
      valuesAt k (ofGroup Prod.fst e.2.1 (l.map (contribution hash_range S))) =
        valuesAt k (ofGroup Prod.fst e.2.1
          ((l.filter fun s => groupOf S f s = g).map (contribution hash_range S))) := by
    intro e he
    have heg : e.2.1.erase f = g := by simpa using (List.mem_filter.mp he).2
    unfold ofGroup
    rw [List.filter_map, List.filter_map, List.filter_filter]
    refine congrArg (fun l => valuesAt k (List.map (contribution hash_range S) l))
      (List.filter_congr fun s _ => ?_)
    by_cases hs : buildUniks S s = e.2.1
    · simp [contribution, groupOf, hs, heg]
    · simp [contribution, hs]
  have hflat : ((m.entries.filter fun e => e.2.1.erase f = g).flatMap fun e =>
      valuesAt k (ofGroup Prod.fst e.2.1 (l.map (contribution hash_range S)))) =
      valuesAt k (((m.entries.filter fun e => e.2.1.erase f = g).map fun e => e.2.1).flatMap fun u =>
        ofGroup Prod.fst u
          ((l.filter fun s => groupOf S f s = g).map (contribution hash_range S))) := by
    rw [List.flatMap_congr hgroup]
    unfold valuesAt
    rw [List.filterMap_flatMap, List.flatMap_map]
  rw [hflat]
  refine List.Perm.filterMap _ (flatMap_ofGroup_perm ?_ ?_)
  · exact List.Sublist.nodup (List.filter_sublist.map _) hm.keyed.nodup_groups
  · intro c hc
    obtain ⟨s, hs, rfl⟩ := List.mem_map.mp hc
    obtain ⟨hs, hg⟩ := List.mem_filter.mp hs
    obtain ⟨e, he, hu⟩ := hm.covered _ (List.mem_map_of_mem hs)
    have hu : e.2.1 = buildUniks S s := hu
    refine List.mem_map.mpr ⟨e, List.mem_filter.mpr ⟨he, ?_⟩, hu⟩
    rw [hu]
    exact hg

/-- What the entries of the instances have of a group, each with what its rows
contributed to it. -/
theorem exists_shares {k : AggKey} {g : StatMap δ} (hop : k.oper.exact = true)
    (hk : reach g k) (hkd : k ≠ distinctKey f)
    (huint : UnsignedAt (kind g) k) {ms : List (MapBuf δ)}
    (hin : HoldAll hash_range S (InstanceEntry kind f reach) ms
      (parts.map fun l => l.map (contribution hash_range S))) :
    ∃ shares : List (Option (Fin (2 ^ 64)) × List (Fin (2 ^ 64))),
      shares.filterMap Prod.fst =
        valuesAt k (ofGroup Prod.fst g ((instanceEntries ms).map fun e => dropped f e.2)) ∧
      (shares.flatMap Prod.snd).Perm (valuesOf hash_range S f k g parts.flatten) ∧
      ∀ x ∈ shares, (∃ n, x.1 = some n ∧ TotalOf k.oper n x.2) ∨ (x.1 = none ∧ x.2 = []) := by
  induction parts generalizing ms with
  | nil =>
    cases hin
    exact ⟨[], rfl, List.Perm.refl _, fun x hx => absurd hx List.not_mem_nil⟩
  | cons l parts ih =>
    cases hin with
    | cons hm hms =>
      rename_i m ms
      obtain ⟨shares, hfst, hsnd, htot⟩ := ih hms
      -- one share for each entry of the instance that has this group once the column is dropped
      refine ⟨(m.entries.filter fun e => e.2.1.erase f = g).map (fun e =>
        ((e.2.2.find? k).bind asUInt64,
          valuesAt k (ofGroup Prod.fst e.2.1 (l.map (contribution hash_range S))))) ++ shares,
        ?_, ?_, ?_⟩
      · unfold instanceEntries at hfst ⊢
        rw [List.filterMap_append, hfst, List.flatMap_cons, List.map_append, ofGroup_append,
          valuesAt_append, List.filterMap_map]
        refine congrArg (· ++ _) ?_
        unfold ofGroup valuesAt
        rw [List.filter_map, List.filterMap_map]
        refine List.filterMap_congr fun e _ => ?_
        show _ = ((dropped f e.2).2.find? k).bind asUInt64
        rw [find?_dropped f e.2 hkd]
        rfl
      · rw [List.flatMap_append, List.flatMap_map, List.flatten_cons]
        unfold valuesOf
        rw [List.filter_append, List.map_append, valuesAt_append]
        exact (Holds.valuesOf_perm hm k g).append hsnd
      · intro x hx
        rcases List.mem_append.mp hx with hx | hx
        · obtain ⟨e, he, rfl⟩ := List.mem_map.mp hx
          obtain ⟨he, heg⟩ := List.mem_filter.mp he
          have heg : e.2.1.erase f = g := by simpa using heg
          have htotal := hm.total e he
          -- an entry without aggregates has no value, and neither had its rows
          by_cases hempty : e.2.2.isEmpty = true
          · refine Or.inr ⟨?_, valuesAt_eq_nil (htotal.isEmpty.mp hempty)⟩
            rw [OrderedMap.isEmpty_iff.mp hempty k]
            rfl
          · obtain ⟨v, hv⟩ := Option.isSome_iff_exists.mp
              (htotal.keys (Bool.eq_false_iff.mpr hempty) k (heg.symm ▸ hk))
            have hkinded := htotal.kinded k v hv
            simp only [heg] at hkinded
            obtain ⟨n, rfl⟩ := hkinded.exists_uint64 hop huint
            exact Or.inl ⟨n, by rw [hv]; rfl, htotal.total k n (heg.symm ▸ hk) hop hv⟩
        · exact htot x hx

/-- An aggregate that reaches the group has its total over the rows. -/
theorem PartsMerge.totalOf (h : PartsMerge hash_range S f kind reach counting parts rows)
    {ms : List (MapBuf δ)}
    (hin : HoldAll hash_range S (InstanceEntry kind f reach) ms
      (parts.map fun l => l.map (contribution hash_range S))) {m : MapBuf δ}
    (hm : Holds hash_range S (MergedFrom kind f reach counting) m
      ((instanceEntries ms).map fun e => dropped f e.2))
    {e : SortKey δ × (StatMap δ × AggRow δ)} (he : e ∈ m.entries) {k : AggKey}
    (hop : k.oper.exact = true) (hk : reach e.2.1 k)
    (huint : UnsignedAt (kind e.2.1) k) :
    ∃ n, e.2.2.find? k = some (.uint64 n) ∧
      TotalOf k.oper n (valuesOf hash_range S f k e.2.1 rows) := by
  obtain ⟨v, hv⟩ := Option.isSome_iff_exists.mp (h.find?_isSome hin hm he hk)
  obtain ⟨n, rfl⟩ := ((hm.total e he).kinded k v hv).exists_uint64 hop huint
  have hkd : k ≠ distinctKey f := by
    rintro rfl
    obtain ⟨s, hs, hg⟩ := (h.groups hin hm e.2.1).mp ⟨e, he, rfl⟩
    obtain ⟨l, -, s', -, -, hc⟩ := (h.reached s hs _ (hg ▸ hk)).present
    exact not_contributes_distinct s'.row hc
  obtain ⟨shares, hfst, hsnd, htot⟩ := exists_shares hop hk hkd huint hin
  have htotal := (hm.total e he).total k n hk hop hv
  rw [← hfst] at htotal
  have hrows : (valuesOf hash_range S f k e.2.1 parts.flatten).Perm
      (valuesOf hash_range S f k e.2.1 rows) :=
    (((h.planned.filter _).map _).filterMap _)
  exact ⟨n, hv, ((htotal.flatMap htot).perm hsnd).perm hrows⟩

/-- The values of the counted column among the rows of a group. -/
def distinctValues (S : StatsSelect) (f : String) (g : StatMap δ) (rows : List (Sample δ)) :
    Finset (StatVal δ) :=
  ((rows.filter fun s => groupOf S f s = g).filterMap
    fun s => (buildUniks S s).find? f).toFinset

omit [Numerics δ] in
theorem mem_distinctValues {g : StatMap δ} {v : StatVal δ} :
    v ∈ distinctValues S f g rows ↔
      ∃ s ∈ rows, groupOf S f s = g ∧ (buildUniks S s).find? f = some v := by
  simp [distinctValues, and_assoc]

/-- An instance has one entry that counts for each value of a group. -/
theorem PartsMerge.contributing_instance
    (h : PartsMerge hash_range S f kind reach counting parts rows) {l : List (Sample δ)}
    (hl : l ∈ parts) {m : MapBuf δ}
    (hm : Holds hash_range S (InstanceEntry kind f reach) m (l.map (contribution hash_range S)))
    {g : StatMap δ} (hcounts : CountsAs S f parts g .each) :
    contributing (ofGroup Prod.fst g (m.entries.map fun e => dropped f e.2)) =
      (distinctValues S f g l).card := by
  let es := m.entries.filter fun e => decide (e.2.1.erase f = g ∧ (e.2.1.find? f).isSome = true)
  have hlen : contributing (ofGroup Prod.fst g (m.entries.map fun e => dropped f e.2)) =
      es.length := by
    unfold contributing ofGroup
    rw [List.filter_map, List.countP_map, List.countP_filter, List.countP_eq_length_filter]
    refine congrArg List.length (List.filter_congr fun e he => ?_)
    show (!(dropped f e.2).2.isEmpty && decide (e.2.1.erase f = g)) = _
    by_cases hg : e.2.1.erase f = g
    · by_cases hf : (e.2.1.find? f).isSome = true
      · have hcount := find?_dropped_distinctKey (f := f) (hm.total e he).count
        have hne : (dropped f e.2).2.isEmpty = false := by
          rw [Bool.eq_false_iff]
          intro hempty
          rw [OrderedMap.isEmpty_iff.mp hempty, if_pos hf] at hcount
          cases hcount
        simp [hne, hg, hf]
      · have hempty := h.isEmpty_of_each hl (hm.total e he) (hg ▸ hcounts) hf
        simp [dropped, hf, hempty]
    · simp [hg]
  have hrow : ∀ e ∈ m.entries, ∃ s ∈ l, buildUniks S s = e.2.1 := by
    intro e he
    obtain ⟨c, hc, hce⟩ := hm.exists_contribution mergedFrom_isTotal he
    obtain ⟨s, hs, rfl⟩ := List.mem_map.mp hc
    exact ⟨s, hs, hce⟩
  have hes : ∀ e ∈ es, e ∈ m.entries ∧ e.2.1.erase f = g ∧ (e.2.1.find? f).isSome = true := by
    intro e he
    obtain ⟨he, hcond⟩ := List.mem_filter.mp he
    exact ⟨he, of_decide_eq_true hcond⟩
  -- entries of the group differ in the counted column
  have hnd : (es.filterMap fun e => e.2.1.find? f).Nodup := by
    refine List.pairwise_filterMap.mpr ?_
    have hpair : es.Pairwise fun a b => a.2.1 ≠ b.2.1 :=
      (List.pairwise_map.mp hm.keyed.nodup_groups).filter _
    refine hpair.imp_of_mem ?_
    intro a b ha hb hne v hv v' hv' heq
    exact hne (eq_of_erase_eq ((hes a ha).2.1.trans (hes b hb).2.1.symm)
      (hv.trans (heq ▸ hv'.symm)))
  have hall : (es.filterMap fun e => e.2.1.find? f).length = es.length :=
    List.filterMap_length_eq_length.mpr fun e he => (hes e he).2.2
  have hset : distinctValues S f g l = (es.filterMap fun e => e.2.1.find? f).toFinset := by
    refine Finset.ext fun v => ?_
    rw [mem_distinctValues, List.mem_toFinset, List.mem_filterMap]
    constructor
    · rintro ⟨s, hs, hg, hv⟩
      obtain ⟨e, he, hu⟩ := hm.covered _ (List.mem_map_of_mem hs)
      have hu : e.2.1 = buildUniks S s := hu
      refine ⟨e, List.mem_filter.mpr ⟨he, decide_eq_true ⟨?_, ?_⟩⟩, by rw [hu]; exact hv⟩
      · rw [hu]
        exact hg
      · rw [hu, hv]
        rfl
    · rintro ⟨e, he, hv⟩
      obtain ⟨hin, hg, -⟩ := hes e he
      obtain ⟨s, hs, hu⟩ := hrow e hin
      exact ⟨s, hs, by rw [groupOf, hu]; exact hg, by rw [hu]; exact hv⟩
  rw [hlen, hset, List.toFinset_card_of_nodup hnd, hall]

/-- Over all instances, the entries of a group that count are as many as the
instances' values of it together. -/
theorem PartsMerge.contributing_instances
    (h : PartsMerge hash_range S f kind reach counting parts rows) {g : StatMap δ}
    (hcounts : CountsAs S f parts g .each) {ls : List (List (Sample δ))}
    (hls : ∀ l ∈ ls, l ∈ parts) {ms : List (MapBuf δ)}
    (hin : HoldAll hash_range S (InstanceEntry kind f reach) ms
      (ls.map fun l => l.map (contribution hash_range S))) :
    contributing (ofGroup Prod.fst g ((instanceEntries ms).map fun e => dropped f e.2)) =
      ((ls.map (distinctValues S f g)).map Finset.card).sum := by
  induction ls generalizing ms with
  | nil =>
    cases hin
    rfl
  | cons l ls ih =>
    cases hin with
    | cons hm hms =>
      have hrest := ih (fun l' hl' => hls l' (List.mem_cons_of_mem _ hl')) hms
      unfold instanceEntries at hrest ⊢
      rw [List.flatMap_cons, List.map_append, ofGroup_append, contributing_append, List.map_cons,
        List.map_cons, List.sum_cons, h.contributing_instance (hls l List.mem_cons_self) hm hcounts,
        hrest]

/-- The count of a group, where each contribution counts one. -/
theorem PartsMerge.find?_distinctKey
    (h : PartsMerge hash_range S f kind reach counting parts rows) {ms : List (MapBuf δ)}
    (hin : HoldAll hash_range S (InstanceEntry kind f reach) ms
      (parts.map fun l => l.map (contribution hash_range S))) {m : MapBuf δ}
    (hm : Holds hash_range S (MergedFrom kind f reach counting) m
      ((instanceEntries ms).map fun e => dropped f e.2))
    {e : SortKey δ × (StatMap δ × AggRow δ)} (he : e ∈ m.entries)
    (hcounting : counting e.2.1 = .each) :
    e.2.2.find? (distinctKey f) =
      countValue ((parts.map (distinctValues S f e.2.1)).map Finset.card).sum := by
  obtain ⟨s, hs, hg⟩ := (h.groups hin hm e.2.1).mp ⟨e, he, rfl⟩
  have hcounts := h.counted s hs
  have hcount := (hm.total e he).count
  rw [hg, hcounting] at hcounts
  rw [hcounting] at hcount
  rw [← h.contributing_instances hcounts (fun l hl => hl) hin]
  exact hcount

-- ---------------------------------------------------------------------------
-- Whole queries
-- ---------------------------------------------------------------------------

/-- What the final merge of a query holds, and the result before its last cut. -/
structure MergesTo (hash_range : StatMap δ → Fin (2 ^ 64)) (S : StatsSelect) (f : String)
    (kind : StatMap δ → String → ValueKind) (reach : StatMap δ → AggKey → Prop)
    (counting : StatMap δ → Counting) (parts : List (List (Sample δ))) (ms : List (MapBuf δ))
    (m full : MapBuf δ) : Prop where
  instances : HoldAll hash_range S (InstanceEntry kind f reach) ms
    (parts.map fun l => l.map (contribution hash_range S))
  merged : Holds hash_range S (MergedFrom kind f reach counting) m
    ((instanceEntries ms).map fun e => dropped f e.2)
  entries : (full.entries.map Prod.snd).Perm (m.entries.map Prod.snd)
  inOrder : InOrder hash_range S full

/-- A query none of whose chunks is cut: the aggregates sorted by have to reach
every group, and the count, if it is sorted by, has to be there. -/
theorem runQuery_merges (hslots : (S.sort_cols_.entries.map Prod.snd).Nodup)
    (hD : DroppedSelect S f) {plan : List (List (List (Sample δ)))}
    (h : PartsMerge hash_range S f kind reach counting (plan.map List.flatten) rows)
    {chunkLimit : Nat} (limit : Nat)
    (hsmall : chunkLimit = 0 ∨
      ∀ chunks ∈ plan, ∀ chunk ∈ chunks, groupCount S chunk ≤ chunkLimit)
    (hsorted : ∀ s ∈ rows, ∀ x ∈ S.agg_sort_cols_.entries, reach (groupOf S f s) x.1 ∨
      (x.1 = distinctKey f ∧ counting (groupOf S f s) = .each ∧
        ∃ s' ∈ rows, groupOf S f s' = groupOf S f s ∧ HasCounted S f s')) :
    ∃ ms m full, runQuery hash_range S chunkLimit limit plan = some (applyLimit limit full) ∧
      MergesTo hash_range S f kind reach counting (plan.map List.flatten) ms m full := by
  have hperm : plan.flatten.flatten.Perm rows := by
    rw [List.flatten_flatten]
    exact h.planned
  have hsub := mem_rows_of_perm hperm
  have hR := h.regular hslots hD
  obtain ⟨ms, hms, hin⟩ := runInstances_all hR (fun s _ => hD.find?_blank s) hsub hsmall
  have hin : HoldAll hash_range S (InstanceEntry kind f reach) ms
      ((plan.map List.flatten).map fun l => l.map (contribution hash_range S)) := by
    rw [List.map_map]
    exact hin
  obtain ⟨m, hm, hrep, hkey⟩ := mergeFinal_represents hslots hD h hin
  by_cases hagg : S.agg_sort_cols_.isEmpty = true
  · have hfinal : MergeFinal hash_range S ms = some m := by simp [MergeFinal, hD.field, hm, hagg]
    exact ⟨ms, m, m, by simp [runQuery, hms, hfinal], hin, hrep, List.Perm.refl _,
      inOrder_of_noAggSort hagg hkey⟩
  · have hfill : ∀ e ∈ m.entries,
        (fillSlots e.2.2.find? S.agg_sort_cols_.entries e.1).isSome = true := by
      intro e he
      rw [fillSlots_isSome_iff, buildKey_length hash_range S (hkey e he)]
      intro x hx
      refine ⟨?_, Nat.lt_succ_of_le (hD.slots x hx)⟩
      obtain ⟨s, hs, hg⟩ := (h.groups hin hrep e.2.1).mp ⟨e, he, rfl⟩
      rcases hsorted s hs x hx with hreach | ⟨hcount, hcounting, s', hs', hg', hcol⟩
      · exact h.find?_isSome hin hrep he (hg ▸ hreach)
      · -- the group has a value to count
        rw [hcount, h.find?_distinctKey hin hrep he (hg ▸ hcounting), countValue, if_neg]
        · rfl
        · obtain ⟨l, hl, hs'⟩ := List.mem_flatten.mp (h.planned.mem_iff.mpr hs')
          obtain ⟨v, hv⟩ := Option.isSome_iff_exists.mp hcol
          have hmem : v ∈ distinctValues S f e.2.1 l :=
            mem_distinctValues.mpr ⟨s', hs', hg'.trans hg, hv⟩
          have hcard : 0 < (distinctValues S f e.2.1 l).card := Finset.card_pos.mpr ⟨v, hmem⟩
          have hle := List.single_le_sum (fun _ _ => Nat.zero_le _) _
            (List.mem_map_of_mem (f := Finset.card)
              (List.mem_map_of_mem (f := distinctValues S f e.2.1) hl))
          omega
    obtain ⟨full, hfull, hord, hp⟩ := rekeyEntries_inOrder hkey hrep.keyed.nodup_groups hfill
    have hfinal : MergeFinal hash_range S ms = some full := by
      simp [MergeFinal, hD.field, hm, hagg, hfull]
    exact ⟨ms, m, full, by simp [runQuery, hms, hfinal], hin, hrep, hp, hord⟩

end

end TfAnalytics.QueryEngine.StatsSelect
