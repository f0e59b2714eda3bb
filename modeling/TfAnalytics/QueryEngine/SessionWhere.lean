import Mathlib
import TfAnalytics.QueryEngine.SessionTerms

/-!
# Query engine — when a session query is answered as it is asked

A row is a choice of a protocol and a server port, of the elements of each set and of
each text. What the database asks of one of them does not depend on the others, and
neither does what the predicates say, so the two are compared one by one.

* `ports_exact_iff` — the slice is right if the protocol is one number or the ports are
  all of them, and the last predicates imply the other ones.
* `comparedExactly_iff` — which single predicates on a text are compared as they say.
* `session_where_iff` — exactly when the rows admitted are the rows asked for.
-/

namespace TfAnalytics.QueryEngine.SessionWhere

open TfAnalytics.Lib TfAnalytics.Collector
open FlowWhere (readUint16 readUint16_of_isDecimal inSlice inSlice_protocol_iff inSlice_port_iff
  like_prependT2_iff)

-- ---------------------------------------------------------------------------
-- Independent conditions
-- ---------------------------------------------------------------------------

/-- Conditions on the components of a tuple say the same if they do one by one, or if on
either side one of them cannot be met. -/
theorem forall_components_iff {ι : Type} {α : ι → Type} (p q : ∀ i, α i → Prop) :
    (∀ g : ∀ i, α i, (∀ i, p i (g i)) ↔ ∀ i, q i (g i)) ↔
      (∀ i x, p i x ↔ q i x) ∨ (∃ i, ∀ x, ¬ p i x) ∧ ∃ i, ∀ x, ¬ q i x := by
  have hempty : ∀ r : ∀ i, α i → Prop, (∃ i, {x | r i x} = ∅) ↔ ∃ i, ∀ x, ¬ r i x := by
    intro r
    simp only [Set.eq_empty_iff_forall_notMem, Set.mem_ofPred_eq]
  have hsubset : ∀ r s : ∀ i, α i → Prop, (∀ g : ∀ i, α i, (∀ i, r i (g i)) → ∀ i, s i (g i)) ↔
      (∀ i x, r i x → s i x) ∨ ∃ i, ∀ x, ¬ r i x := by
    intro r s
    rw [← hempty r]
    have := @Set.univ_pi_subset_univ_pi_iff ι α (fun i => {x | r i x}) fun i => {x | s i x}
    simpa [Set.subset_def, Set.mem_univ_pi] using this
  have hboth : (∀ g : ∀ i, α i, (∀ i, p i (g i)) ↔ ∀ i, q i (g i)) ↔
      (∀ g : ∀ i, α i, (∀ i, p i (g i)) → ∀ i, q i (g i)) ∧
        ∀ g : ∀ i, α i, (∀ i, q i (g i)) → ∀ i, p i (g i) := by
    simp only [iff_iff_implies_and_implies, forall_and]
  rw [hboth, hsubset, hsubset]
  constructor
  · rintro ⟨hpq | ⟨i, hi⟩, hqp | ⟨j, hj⟩⟩
    · exact .inl fun i x => ⟨hpq i x, hqp i x⟩
    · exact .inr ⟨⟨j, fun x hx => hj x (hpq j x hx)⟩, j, hj⟩
    · exact .inr ⟨⟨i, hi⟩, i, fun x hx => hi x (hqp i x hx)⟩
    · exact .inr ⟨⟨i, hi⟩, j, hj⟩
  · rintro (hsame | ⟨hp, hq⟩)
    · exact ⟨.inl fun i x => (hsame i x).mp, .inl fun i x => (hsame i x).mpr⟩
    · exact ⟨.inr hp, .inr hq⟩

-- ---------------------------------------------------------------------------
-- What the predicates say
-- ---------------------------------------------------------------------------

namespace SessionMatch

variable (t : SessionMatch)

/-- What a predicate says of a number. -/
def HoldsNumber (n : Nat) : Prop :=
  match t.op with
  | .EQUAL => n = decimalValue t.value
  | .IN_RANGE => decimalValue t.value ≤ n ∧ n ≤ decimalValue t.value2
  | _ => False

/-- What a predicate says of a set. -/
def HoldsSet (elements : List Text) : Prop :=
  match t.op with
  | .CONTAINS => t.value.toList ∈ elements
  | _ => False

/-- What a predicate says of a text, for the regular expressions and the order of the
field's values. -/
def HoldsText (regex_match : Text → Text → Bool) (le : Text → Text → Bool) (text : Text) : Prop :=
  match t.op with
  | .EQUAL => text = t.value.toList
  | .NOT_EQUAL => text ≠ t.value.toList
  | .IN_RANGE => le t.value.toList text = true ∧ le text t.value2.toList = true
  | .NOT_IN_RANGE => ¬ (le t.value.toList text = true ∧ le text t.value2.toList = true)
  | .LEQ => le text t.value.toList = true
  | .GEQ => le t.value.toList text = true
  | .PREFIX => t.value.toList <+: text
  | .REGEX_MATCH => regex_match t.value.toList text = true
  | .CONTAINS => t.value.toList <:+: text
  | .other _ => False

/-- The row satisfies the predicate. -/
def Holds (regex_match : Text → Text → Bool) (le : TextField → Text → Text → Bool)
    (row : SessionRow) : Prop :=
  match t.field with
  | .protocol => t.HoldsNumber row.protocol.val
  | .server_port => t.HoldsNumber row.server_port.val
  | .set field => t.HoldsSet (row.set field)
  | .text field => t.HoldsText regex_match (le field) (row.text field)
  | .is_service_instance | .session_type => False

/-- The numbers of a predicate on the protocol or the server port are decimal and fit
16 bits. -/
def ReadsNumbers : Prop :=
  t.field = .protocol ∨ t.field = .server_port →
    (IsDecimal t.value ∧ decimalValue t.value < 2 ^ 16) ∧
      (t.op = .IN_RANGE → IsDecimal t.value2 ∧ decimalValue t.value2 < 2 ^ 16)

/-- The first and the last number a predicate allows. -/
def low : Nat := decimalValue t.value

def high : Nat := if t.op = .EQUAL then decimalValue t.value else decimalValue t.value2

theorem holdsNumber_iff (h : t.op = .IN_RANGE ∨ t.op = .EQUAL) (n : Nat) :
    t.HoldsNumber n ↔ t.low ≤ n ∧ n ≤ t.high := by
  unfold HoldsNumber low high
  rcases h with hop | hop
  · simp [hop]
  · simp only [hop, if_true]
    omega

end SessionMatch

-- ---------------------------------------------------------------------------
-- The slice
-- ---------------------------------------------------------------------------

/-- The range of the last predicate on the protocol or the server port, which the slice
is made of. -/
def lastRange (terms : List SessionMatch) (field : SessionField) : Nat × Nat :=
  match lastOn terms field with
  | some t => (t.low, t.high)
  | none => (0, 65535)

/-- The slice, as tuples in lexicographic order. -/
def Slice (p s : Nat × Nat) (x y : Nat) : Prop :=
  (p.1 < x ∨ p.1 = x ∧ s.1 ≤ y) ∧ (x < p.2 ∨ x = p.2 ∧ y ≤ s.2)

/-- No row is in the slice. -/
def SliceEmpty (terms : List SessionMatch) : Prop :=
  (lastRange terms .protocol).2 < (lastRange terms .protocol).1 ∨
    (lastRange terms .protocol).1 = (lastRange terms .protocol).2 ∧
      (lastRange terms .server_port).2 < (lastRange terms .server_port).1

/-- The range is within that of every predicate on the field. -/
def WithinAll (terms : List SessionMatch) (field : SessionField) : Prop :=
  ∀ t ∈ terms, t.field = field →
    t.low ≤ (lastRange terms field).1 ∧ (lastRange terms field).2 ≤ t.high

/-- When the slice is that of the predicates. -/
def PortsExact (terms : List SessionMatch) : Prop :=
  (lastRange terms .protocol).2 < (lastRange terms .protocol).1 ∨
    ((lastRange terms .protocol).1 = (lastRange terms .protocol).2 ∨
        lastRange terms .server_port = (0, 65535)) ∧
      ((lastRange terms .server_port).2 < (lastRange terms .server_port).1 ∨
        WithinAll terms .protocol ∧ WithinAll terms .server_port)

/-- The number is in the range of every predicate on the field. -/
def InRanges (terms : List SessionMatch) (field : SessionField) (n : Nat) : Prop :=
  ∀ t ∈ terms, t.field = field → t.low ≤ n ∧ n ≤ t.high

theorem inRanges_last {terms : List SessionMatch} {field : SessionField} {n : Nat} (hn : n < 2 ^ 16)
    (h : InRanges terms field n) :
    (lastRange terms field).1 ≤ n ∧ n ≤ (lastRange terms field).2 := by
  unfold lastRange
  cases hlast : lastOn terms field with
  | none =>
    show 0 ≤ n ∧ n ≤ 65535
    omega
  | some t =>
    obtain ⟨hmem, hfield⟩ := mem_of_lastOn hlast
    exact h t hmem hfield

theorem inRanges_of_within {terms : List SessionMatch} {field : SessionField} {n : Nat}
    (h : WithinAll terms field)
    (hn : (lastRange terms field).1 ≤ n ∧ n ≤ (lastRange terms field).2) :
    InRanges terms field n := by
  intro t ht hfield
  have := h t ht hfield
  omega

/-- The last predicates are read as they are written. -/
def LastFits (terms : List SessionMatch) (field : SessionField) : Prop :=
  (lastRange terms field).1 < 2 ^ 16 ∧ (lastRange terms field).2 < 2 ^ 16

theorem sliceEmpty_iff {terms : List SessionMatch} (hp : LastFits terms .protocol)
    (hs : LastFits terms .server_port) :
    SliceEmpty terms ↔ ∀ x y : Fin (2 ^ 16),
      ¬ Slice (lastRange terms .protocol) (lastRange terms .server_port) x.val y.val := by
  obtain ⟨hp1, hp2⟩ := hp
  obtain ⟨hs1, hs2⟩ := hs
  unfold SliceEmpty Slice
  generalize lastRange terms .protocol = p at *
  generalize lastRange terms .server_port = s at *
  constructor
  · intro hempty x y
    omega
  · intro hnone
    have hfirst : ¬ ((p.1 < p.1 ∨ p.1 = p.1 ∧ s.1 ≤ s.1) ∧ (p.1 < p.2 ∨ p.1 = p.2 ∧ s.1 ≤ s.2)) :=
      hnone ⟨p.1, hp1⟩ ⟨s.1, hs1⟩
    omega

/-- The slice is right if it is of one protocol or of all ports, and the predicates that
it forgets say nothing more. -/
theorem ports_exact_iff {terms : List SessionMatch} (hp : LastFits terms .protocol)
    (hs : LastFits terms .server_port) :
    (∀ x y : Fin (2 ^ 16),
      Slice (lastRange terms .protocol) (lastRange terms .server_port) x.val y.val ↔
        InRanges terms .protocol x.val ∧ InRanges terms .server_port y.val) ↔
      PortsExact terms := by
  obtain ⟨hp1, hp2⟩ := hp
  obtain ⟨hs1, hs2⟩ := hs
  unfold PortsExact
  constructor
  · intro hexact
    by_cases hempty : (lastRange terms .protocol).2 < (lastRange terms .protocol).1
    · exact .inl hempty
    refine .inr ⟨?_, ?_⟩
    · -- Two protocols: the first has the upper ports, the last the lower ones.
      by_contra hnot
      obtain ⟨hne, hports⟩ := not_or.mp hnot
      have hupperIn : Slice (lastRange terms .protocol) (lastRange terms .server_port)
          (lastRange terms .protocol).1 65535 := by
        unfold Slice
        omega
      have hlowerIn : Slice (lastRange terms .protocol) (lastRange terms .server_port)
          (lastRange terms .protocol).2 0 := by
        unfold Slice
        omega
      have hupper := (hexact ⟨_, hp1⟩ ⟨65535, by decide⟩).mp hupperIn
      have hlower := (hexact ⟨_, hp2⟩ ⟨0, by decide⟩).mp hlowerIn
      have hhigh := inRanges_last (by simp) hupper.2
      have hlow := inRanges_last (by simp) hlower.2
      refine hports (Prod.ext ?_ ?_)
      · simp only at hlow ⊢
        omega
      · simp only at hhigh ⊢
        omega
    · -- one protocol or all ports: the corners of the slice satisfy every predicate
      by_cases hports : (lastRange terms .server_port).2 < (lastRange terms .server_port).1
      · exact .inl hports
      have hfirstIn : Slice (lastRange terms .protocol) (lastRange terms .server_port)
          (lastRange terms .protocol).1 (lastRange terms .server_port).1 := by
        unfold Slice
        omega
      have hlastIn : Slice (lastRange terms .protocol) (lastRange terms .server_port)
          (lastRange terms .protocol).2 (lastRange terms .server_port).2 := by
        unfold Slice
        omega
      have hfirst := (hexact ⟨_, hp1⟩ ⟨_, hs1⟩).mp hfirstIn
      have hlast := (hexact ⟨_, hp2⟩ ⟨_, hs2⟩).mp hlastIn
      exact .inr ⟨fun t ht hfield => ⟨(hfirst.1 t ht hfield).1, (hlast.1 t ht hfield).2⟩,
        fun t ht hfield => ⟨(hfirst.2 t ht hfield).1, (hlast.2 t ht hfield).2⟩⟩
  · -- conversely a slice of this shape is a product of two ranges
    rintro (hempty | ⟨hshape, hwithin⟩) x y
    · constructor
      · intro hslice
        unfold Slice at hslice
        omega
      · rintro ⟨hx, -⟩
        have := inRanges_last x.isLt hx
        omega
    · have hbox : Slice (lastRange terms .protocol) (lastRange terms .server_port) x.val y.val ↔
          ((lastRange terms .protocol).1 ≤ x.val ∧ x.val ≤ (lastRange terms .protocol).2) ∧
            (lastRange terms .server_port).1 ≤ y.val ∧
              y.val ≤ (lastRange terms .server_port).2 := by
        have hy := y.isLt
        unfold Slice
        rcases hshape with hsame | hfull
        · omega
        · rw [hfull]
          simp only
          omega
      rw [hbox]
      constructor
      · rintro ⟨hx, hy⟩
        rcases hwithin with hports | ⟨hprotocol, hport⟩
        · omega
        · exact ⟨inRanges_of_within hprotocol hx, inRanges_of_within hport hy⟩
      · rintro ⟨hx, hy⟩
        exact ⟨inRanges_last x.isLt hx, inRanges_last y.isLt hy⟩

section Reads

variable {terms : List SessionMatch} (haccepts : ∀ t ∈ terms, t.field.accepts t.op = true)
include haccepts

theorem number_op {t : SessionMatch} (ht : t ∈ terms)
    (hfield : t.field = .protocol ∨ t.field = .server_port) : t.op = .IN_RANGE ∨ t.op = .EQUAL := by
  have hop := haccepts t ht
  rcases hfield with hfield | hfield
  · simpa [hfield, SessionField.accepts] using hop
  · simpa [hfield, SessionField.accepts] using hop

theorem holdsNumbers_iff {field : SessionField} (hfield : field = .protocol ∨ field = .server_port)
    (n : Nat) : (∀ t ∈ terms, t.field = field → t.HoldsNumber n) ↔ InRanges terms field n := by
  unfold InRanges
  refine forall₂_congr fun t ht => forall_congr' fun heq => ?_
  subst heq
  exact t.holdsNumber_iff (number_op haccepts ht hfield) n

variable (hreads : ∀ t ∈ terms, t.ReadsNumbers)
include hreads

/-- The bounds of a predicate are its numbers. -/
theorem exists_bounds {t : SessionMatch} (ht : t ∈ terms)
    (hfield : t.field = .protocol ∨ t.field = .server_port) :
    ∃ a b : Fin (2 ^ 16), bounds t = ([a], [b]) ∧ a.val = t.low ∧ b.val = t.high := by
  obtain ⟨⟨hdecimal, hfits⟩, hrange⟩ := hreads t ht hfield
  have hlow : (readUint16 t.value).val = decimalValue t.value := by
    rw [readUint16_of_isDecimal hdecimal]
    omega
  unfold bounds SessionMatch.low SessionMatch.high
  rcases number_op haccepts ht hfield with hop | hop
  · obtain ⟨hdecimal2, hfits2⟩ := hrange hop
    refine ⟨readUint16 t.value, readUint16 t.value2, by simp [hop], hlow, ?_⟩
    rw [readUint16_of_isDecimal hdecimal2, hop, if_neg (by decide)]
    omega
  · exact ⟨readUint16 t.value, readUint16 t.value, by simp [hop], hlow, by simp [hop, hlow]⟩

theorem lastFits {field : SessionField} (hfield : field = .protocol ∨ field = .server_port) :
    LastFits terms field := by
  unfold LastFits lastRange
  cases hlast : lastOn terms field with
  | none => exact ⟨by decide, by decide⟩
  | some t =>
    obtain ⟨hmem, rfl⟩ := mem_of_lastOn hlast
    obtain ⟨a, b, -, ha, hb⟩ := exists_bounds haccepts hreads hmem hfield
    show t.low < 2 ^ 16 ∧ t.high < 2 ^ 16
    rw [← ha, ← hb]
    exact ⟨a.isLt, b.isLt⟩

/-- The bounds pushed for the protocol and the port make the slice of the last ranges. -/
theorem inSlice_iff_slice {m : SessionMatches} {ports : List (Fin (2 ^ 16)) × List (Fin (2 ^ 16))}
    (hproto : m.proto_match = lastOn terms .protocol)
    (hsport : m.sport_match = lastOn terms .server_port) (hports : portBounds m = some ports)
    (x y : Fin (2 ^ 16)) :
    inSlice ((protocolBounds m).1 ++ ports.1) ((protocolBounds m).2 ++ ports.2) [x, y] ↔
      Slice (lastRange terms .protocol) (lastRange terms .server_port) x.val y.val := by
  obtain ⟨p, q, hbounds, hp, hq⟩ : ∃ p q : Fin (2 ^ 16), protocolBounds m = ([p], [q]) ∧
      p.val = (lastRange terms .protocol).1 ∧ q.val = (lastRange terms .protocol).2 := by
    unfold protocolBounds lastRange
    rw [hproto]
    cases hlast : lastOn terms .protocol with
    | none => exact ⟨0, 0xffff, rfl, rfl, rfl⟩
    | some t =>
      obtain ⟨hmem, hfield⟩ := mem_of_lastOn hlast
      exact exists_bounds haccepts hreads hmem (.inl hfield)
  have hy := y.isLt
  unfold portBounds at hports
  rw [hsport] at hports
  rw [hbounds]
  unfold Slice
  cases hlast : lastOn terms .server_port with
  | none =>
    rw [hlast] at hports
    obtain rfl := Option.some.inj hports
    have hrange : lastRange terms .server_port = (0, 65535) := by
      unfold lastRange
      rw [hlast]
    rw [hrange]
    refine (inSlice_protocol_iff p q x y).trans ?_
    simp only [Fin.le_def]
    omega
  | some t =>
    simp only [hlast] at hports
    split at hports
    · obtain rfl := Option.some.inj hports
      obtain ⟨hmem, hfield⟩ := mem_of_lastOn hlast
      obtain ⟨a, b, hport, ha, hb⟩ := exists_bounds haccepts hreads hmem (.inr hfield)
      have hrange : lastRange terms .server_port = (t.low, t.high) := by
        unfold lastRange
        rw [hlast]
      rw [hport, hrange]
      refine (inSlice_port_iff p q a b x y).trans ?_
      simp only [Fin.le_def, Fin.lt_def, Fin.ext_iff]
      omega
    · cases hports

end Reads

-- ---------------------------------------------------------------------------
-- Texts
-- ---------------------------------------------------------------------------

/-- When a predicate on a text is compared as it says. -/
def SessionMatch.ComparedExactly (t : SessionMatch) (regex_match le : Text → Text → Bool) : Prop :=
  if t.op = .PREFIX then '%' ∉ t.value.toList
  else if t.value.toList = ['%'] then ∀ text, t.HoldsText regex_match le text
  else if t.value.toList.head? = some '%' then ∀ text, ¬ t.HoldsText regex_match le text
  else ∀ text, t.HoldsText regex_match le text ↔ text = t.value.toList

theorem like_prefix_percent {T2 : Nat} (value : Text) :
    like (PipelineCb T2 (value ++ ['%'])) (PrependT2 T2 (value.filter (· ≠ '%'))) = true := by
  have hvalue : like (value ++ ['%']) (value.filter (· ≠ '%')) = true :=
    like_append_percent_iff.mpr ⟨_, [], (List.append_nil _).symm, like_filter_percent value⟩
  unfold PipelineCb
  split
  next hhead =>
    cases value with
    | nil => exact like_percent_iff.mpr ⟨_, [], (List.append_nil _).symm, rfl⟩
    | cons c rest =>
      obtain rfl : c = '%' := by simpa using hhead
      obtain ⟨before, after, heq, hafter⟩ := like_percent_iff.mp hvalue
      refine like_percent_iff.mpr ⟨PrependT2 T2 before, after, ?_, hafter⟩
      unfold PrependT2
      rw [heq, List.append_assoc, List.cons_append]
  · exact like_append (like_self _) (like_append (like_self [':']) hvalue)

theorem not_prefix_filter {value : Text} (h : '%' ∈ value) :
    ¬ value <+: value.filter (· ≠ '%') := by
  intro hstart
  have hlt : (value.filter (· ≠ '%')).length < value.length :=
    List.length_filter_lt_length_iff_exists.mpr ⟨'%', h, by simp⟩
  have := hstart.length_le
  omega

theorem comparedExactly_iff (t : SessionMatch) (regex_match le : Text → Text → Bool) (T2 : Nat) :
    (∀ text, t.Compares T2 text ↔ t.HoldsText regex_match le text) ↔
      t.ComparedExactly regex_match le := by
  unfold SessionMatch.Compares SessionMatch.ComparedExactly
  by_cases hop : t.op = .PREFIX
  · have hholds : ∀ text, t.HoldsText regex_match le text ↔ t.value.toList <+: text := by
      intro text
      unfold SessionMatch.HoldsText
      rw [hop]
    simp only [hop, if_true, hholds]
    constructor
    · intro hexact hpercent
      exact not_prefix_filter hpercent ((hexact _).mp (.inr (like_prefix_percent t.value.toList)))
    · intro hpercent text
      by_cases hvalue : t.value = ""
      · simp [hvalue]
      have hne : t.value.toList ≠ [] := by simpa using hvalue
      have hhead : ¬ (t.value.toList ++ ['%']).head? = some '%' := by
        rw [List.head?_append_of_ne_nil _ hne]
        exact fun hhead => hpercent (List.mem_of_mem_head? hhead)
      unfold PipelineCb
      rw [if_neg hhead, like_prependT2_iff hpercent]
      simp [hvalue]
  · simp only [hop, if_false]
    by_cases hvalue : t.value.toList = ['%']
    · simp [hvalue]
    by_cases hhead : t.value.toList.head? = some '%'
    · simp [hvalue, hhead]
    · simp only [hvalue, hhead, false_or, if_false, ne_eq, not_false_eq_true, true_and]
      exact forall_congr' fun text => iff_comm

-- ---------------------------------------------------------------------------
-- Sets
-- ---------------------------------------------------------------------------

/-- One element that has all the values inside it is taken for each of them. -/
theorem exists_mistaken_element (T2 : Nat) (values : List Text) : ∃ element : Text,
    (∀ value ∈ values, Occurs value (PrependT2 T2 (setText [element]))) ∧
      ∀ value ∈ values, value ∉ [element] := by
  refine ⟨':' :: values.flatten, fun value hvalue => ?_, fun value hvalue hmem => ?_⟩
  · have hinside : value <:+: ':' :: values.flatten :=
      (List.infix_of_mem_flatten hvalue).trans (List.suffix_cons ':' _).isInfix
    have hcell : ':' :: values.flatten <:+: PrependT2 T2 (setText [':' :: values.flatten]) := by
      have hset : setText [':' :: values.flatten] = ':' :: values.flatten := by
        simp [setText, List.intercalate]
      rw [hset]
      unfold PrependT2
      exact ((List.suffix_cons ':' _).trans (List.suffix_append _ _)).isInfix
    exact occurs_of_infix (hinside.trans hcell)
  · have hlength := (List.infix_of_mem_flatten hvalue).length_le
    rw [List.mem_singleton.mp hmem, List.length_cons] at hlength
    omega

theorem holdsSet_iff {terms : List SessionMatch}
    (haccepts : ∀ t ∈ terms, t.field.accepts t.op = true) (field : SetField)
    (elements : List Text) :
    (∀ t ∈ terms, t.field = .set field → t.HoldsSet elements) ↔
      ∀ value ∈ tagValues terms field, value ∈ elements := by
  simp only [tagValues, List.forall_mem_map, List.mem_filter, decide_eq_true_eq, and_imp]
  refine forall₂_congr fun t ht => forall_congr' fun hfield => ?_
  have hop : t.op = .CONTAINS := by
    simpa [hfield, SessionField.accepts] using haccepts t ht
  unfold SessionMatch.HoldsSet
  rw [hop]

-- ---------------------------------------------------------------------------
-- The components of a row
-- ---------------------------------------------------------------------------

/-- What the database and the predicates look at on its own. -/
inductive Component where
  | ports
  | set (field : SetField)
  | text (field : TextField)

def Component.Value : Component → Type
  | .ports => Fin (2 ^ 16) × Fin (2 ^ 16)
  | .set _ => List Text
  | .text _ => Text

def SessionRow.value (row : SessionRow) : (c : Component) → c.Value
  | .ports => (row.protocol, row.server_port)
  | .set field => row.set field
  | .text field => row.text field

theorem forall_rows_iff {P : (∀ c : Component, c.Value) → Prop} :
    (∀ row : SessionRow, P row.value) ↔ ∀ g, P g := by
  refine ⟨fun h g => ?_, fun h row => h row.value⟩
  have hrow : SessionRow.value
      ⟨(g .ports).1, (g .ports).2, fun field => g (.set field),
        fun field => g (.text field)⟩ = g := by
    funext c
    cases c <;> rfl
  exact hrow ▸ h _

section Components

variable (regex_match : Text → Text → Bool) (le : TextField → Text → Text → Bool) (T2 : Nat)
  (terms : List SessionMatch)

/-- What the database asks of a component. -/
def Compared : (c : Component) → c.Value → Prop
  | .ports, xy => Slice (lastRange terms .protocol) (lastRange terms .server_port) xy.1.val xy.2.val
  | .set field, elements => ∀ value ∈ (tagValues terms field).take (dealtOut terms),
      Occurs value (PrependT2 T2 (setText elements))
  | .text field, text => ∀ t ∈ terms, t.field = .text field → t.Compares T2 text

/-- What the predicates say of a component. -/
def Asked : (c : Component) → c.Value → Prop
  | .ports, xy => InRanges terms .protocol xy.1.val ∧ InRanges terms .server_port xy.2.val
  | .set field, elements => ∀ t ∈ terms, t.field = .set field → t.HoldsSet elements
  | .text field, text =>
    ∀ t ∈ terms, t.field = .text field → t.HoldsText regex_match (le field) text

/-- The predicates on one text. -/
def onText (field : TextField) : List SessionMatch :=
  terms.filter fun t => t.field = .text field

/-- When the predicates on one text are compared as they say: several of them together. -/
def TextExact (le : Text → Text → Bool) : List SessionMatch → Prop
  | [] => True
  | [t] => t.ComparedExactly regex_match le
  | ts => ∀ text, (∀ t ∈ ts, t.Compares T2 text) ↔ ∀ t ∈ ts, t.HoldsText regex_match le text

/-- No row can be admitted: the slice is empty, or no text passes the conditions on it. -/
def NoRowCompared : Prop :=
  SliceEmpty terms ∨ ∃ field, ∀ text, ¬ ∀ t ∈ onText terms field, t.Compares T2 text

/-- No row is asked for: no protocol or no port is in all the ranges, or no text satisfies
the predicates on it. -/
def NoRowAsked : Prop :=
  (∀ x : Fin (2 ^ 16), ¬ InRanges terms .protocol x.val) ∨
    (∀ y : Fin (2 ^ 16), ¬ InRanges terms .server_port y.val) ∨
      ∃ field, ∀ text, ¬ ∀ t ∈ onText terms field, t.HoldsText regex_match (le field) text

theorem forall_onText_iff (field : TextField) (P : SessionMatch → Prop) :
    (∀ t ∈ onText terms field, P t) ↔ ∀ t ∈ terms, t.field = .text field → P t := by
  simp [onText]

theorem textExact_iff (field : TextField) :
    (∀ text, Compared T2 terms (.text field) text ↔ Asked regex_match le terms (.text field) text) ↔
      TextExact regex_match T2 (le field) (onText terms field) := by
  have hrestate : ∀ text,
      (Compared T2 terms (.text field) text ↔ Asked regex_match le terms (.text field) text) ↔
        ((∀ t ∈ onText terms field, t.Compares T2 text) ↔
          ∀ t ∈ onText terms field, t.HoldsText regex_match (le field) text) := by
    intro text
    rw [forall_onText_iff, forall_onText_iff]
    rfl
  rw [forall_congr' hrestate]
  match onText terms field with
  | [] => simp [TextExact]
  | [t] =>
    simp only [List.mem_singleton, forall_eq, TextExact]
    exact comparedExactly_iff t regex_match (le field) T2
  | _ :: _ :: _ => exact Iff.rfl

/-- The other elements of a set are never told apart from the value. -/
theorem set_exact_iff (haccepts : ∀ t ∈ terms, t.field.accepts t.op = true) (field : SetField) :
    (∀ elements, Compared T2 terms (.set field) elements ↔
      Asked regex_match le terms (.set field) elements) ↔ ∀ t ∈ terms, t.field ≠ .set field := by
  constructor
  · intro hexact t ht hfield
    obtain ⟨element, hfound, hother⟩ := exists_mistaken_element T2 (tagValues terms field)
    have hasked := (hexact [element]).mp fun value hvalue =>
      hfound value (List.mem_of_mem_take hvalue)
    have hvalue : t.value.toList ∈ tagValues terms field :=
      List.mem_map_of_mem (List.mem_filter.mpr ⟨ht, by simpa using hfield⟩)
    exact hother _ hvalue ((holdsSet_iff haccepts field [element]).mp hasked _ hvalue)
  · intro hnone elements
    have hvalues : tagValues terms field = [] := by
      simpa [tagValues] using hnone
    constructor
    · intro _ t ht hfield
      exact absurd hfield (hnone t ht)
    · intro _ value hvalue
      rw [hvalues, List.take_nil] at hvalue
      exact absurd hvalue List.not_mem_nil

/-- The conditions on a set can be met. -/
theorem compared_set_possible (field : SetField) :
    ∃ elements, Compared T2 terms (.set field) elements := by
  obtain ⟨element, hfound, -⟩ := exists_mistaken_element T2 (tagValues terms field)
  exact ⟨[element], fun value hvalue => hfound value (List.mem_of_mem_take hvalue)⟩

/-- The predicates on a set can be satisfied. -/
theorem asked_set_possible (haccepts : ∀ t ∈ terms, t.field.accepts t.op = true)
    (field : SetField) :
    ∃ elements, Asked regex_match le terms (.set field) elements :=
  ⟨tagValues terms field, (holdsSet_iff haccepts field _).mpr fun _ hvalue => hvalue⟩

theorem noRowCompared_iff (hp : LastFits terms .protocol) (hs : LastFits terms .server_port) :
    (∃ c, ∀ x, ¬ Compared T2 terms c x) ↔ NoRowCompared T2 terms := by
  unfold NoRowCompared
  rw [sliceEmpty_iff hp hs]
  constructor
  · rintro ⟨c, hnone⟩
    cases c with
    | ports => exact .inl fun x y => hnone (x, y)
    | set field =>
      obtain ⟨elements, helements⟩ := compared_set_possible T2 terms field
      exact absurd helements (hnone elements)
    | text field =>
      exact .inr ⟨field, fun text hall => hnone text ((forall_onText_iff terms field _).mp hall)⟩
  · rintro (hempty | ⟨field, hnone⟩)
    · exact ⟨.ports, fun xy => hempty xy.1 xy.2⟩
    · exact ⟨.text field, fun text hall => hnone text ((forall_onText_iff terms field _).mpr hall)⟩

theorem noRowAsked_iff (haccepts : ∀ t ∈ terms, t.field.accepts t.op = true) :
    (∃ c, ∀ x, ¬ Asked regex_match le terms c x) ↔ NoRowAsked regex_match le terms := by
  unfold NoRowAsked
  constructor
  · rintro ⟨c, hnone⟩
    cases c with
    | ports =>
      by_cases hx : ∃ x : Fin (2 ^ 16), InRanges terms .protocol x.val
      · obtain ⟨x, hx⟩ := hx
        exact .inr (.inl fun y hy => hnone (x, y) ⟨hx, hy⟩)
      · exact .inl fun x hprotocol => hx ⟨x, hprotocol⟩
    | set field =>
      obtain ⟨elements, helements⟩ := asked_set_possible regex_match le terms haccepts field
      exact absurd helements (hnone elements)
    | text field =>
      refine .inr (.inr ⟨field, fun text hall => ?_⟩)
      exact hnone text ((forall_onText_iff terms field _).mp hall)
  · rintro (hnone | hnone | ⟨field, hnone⟩)
    · exact ⟨.ports, fun xy hasked => hnone xy.1 hasked.1⟩
    · exact ⟨.ports, fun xy hasked => hnone xy.2 hasked.2⟩
    · exact ⟨.text field, fun text hall => hnone text ((forall_onText_iff terms field _).mpr hall)⟩

theorem holds_iff_asked (haccepts : ∀ t ∈ terms, t.field.accepts t.op = true) (row : SessionRow) :
    (∀ t ∈ terms, t.Holds regex_match le row) ↔
      ∀ c, Asked regex_match le terms c (row.value c) := by
  have hprotocol := holdsNumbers_iff haccepts (.inl rfl) row.protocol.val
  have hport := holdsNumbers_iff haccepts (.inr rfl) row.server_port.val
  constructor
  · intro hholds c
    cases c with
    | ports =>
      refine ⟨hprotocol.mp fun t ht hfield => ?_, hport.mp fun t ht hfield => ?_⟩
      · simpa [SessionMatch.Holds, hfield] using hholds t ht
      · simpa [SessionMatch.Holds, hfield] using hholds t ht
    | set field =>
      intro t ht hfield
      show t.HoldsSet (row.set field)
      simpa [SessionMatch.Holds, hfield] using hholds t ht
    | text field =>
      intro t ht hfield
      show t.HoldsText regex_match (le field) (row.text field)
      simpa [SessionMatch.Holds, hfield] using hholds t ht
  · intro hasked t ht
    have hports := hasked .ports
    unfold SessionMatch.Holds
    cases hfield : t.field with
    | protocol => exact hprotocol.mpr hports.1 t ht hfield
    | server_port => exact hport.mpr hports.2 t ht hfield
    | set field => exact hasked (.set field) t ht hfield
    | text field => exact hasked (.text field) t ht hfield
    | is_service_instance => simpa [hfield, SessionField.accepts] using haccepts t ht
    | session_type => simpa [hfield, SessionField.accepts] using haccepts t ht

end Components

theorem admits_iff_compared {terms : List SessionMatch} {units : List DbQueryUnit}
    (hparsed : orTerm terms = some units) (hreads : ∀ t ∈ terms, t.ReadsNumbers) (T2 : Nat)
    (row : SessionRow) :
    Admits T2 units row ↔ ∀ c, Compared T2 terms c (row.value c) := by
  obtain ⟨m, ports, hproto, hsport, hports, hadmits⟩ := admits_iff hparsed T2 row
  rw [hadmits, inSlice_iff_slice (accepts_of_orTerm hparsed) hreads hproto hsport hports]
  constructor
  · rintro ⟨hslice, htexts, hsets⟩ c
    cases c with
    | ports => exact hslice
    | set field => exact hsets field
    | text field => exact fun t ht hfield => htexts t ht field hfield
  · intro hcompared
    exact ⟨hcompared .ports, fun t ht field hfield => hcompared (.text field) t ht hfield,
      fun field => hcompared (.set field)⟩

/-- The rows admitted are the rows asked for if and only if the slice is that of the
predicates, there is no predicate on labels or tags and every text is compared as its
predicates say, or no row is admitted and none is asked for. -/
theorem session_where_iff (regex_match : Text → Text → Bool) (le : TextField → Text → Text → Bool)
    {terms : List SessionMatch} {units : List DbQueryUnit} (hparsed : orTerm terms = some units)
    (hreads : ∀ t ∈ terms, t.ReadsNumbers) (T2 : Nat) :
    (∀ row, Admits T2 units row ↔ ∀ t ∈ terms, t.Holds regex_match le row) ↔
      (PortsExact terms ∧ (∀ t ∈ terms, ∀ field, t.field ≠ .set field) ∧
        ∀ field, TextExact regex_match T2 (le field) (onText terms field)) ∨
      (NoRowCompared T2 terms ∧ NoRowAsked regex_match le terms) := by
  have haccepts := accepts_of_orTerm hparsed
  have hp := lastFits haccepts hreads (.inl rfl)
  have hs := lastFits haccepts hreads (.inr rfl)
  simp only [admits_iff_compared hparsed hreads, holds_iff_asked regex_match le terms haccepts]
  rw [@forall_rows_iff fun g =>
    (∀ c, Compared T2 terms c (g c)) ↔ ∀ c, Asked regex_match le terms c (g c),
    forall_components_iff, noRowCompared_iff T2 terms hp hs,
    noRowAsked_iff regex_match le terms haccepts]
  refine or_congr_left ⟨fun hexact => ⟨?_, ?_, ?_⟩, ?_⟩
  · exact (ports_exact_iff hp hs).mp fun x y => hexact .ports (x, y)
  · exact fun t ht field => (set_exact_iff regex_match le T2 terms haccepts field).mp
      (hexact (.set field)) t ht
  · exact fun field => (textExact_iff regex_match le T2 terms field).mp (hexact (.text field))
  · rintro ⟨hports, hsets, htexts⟩ c
    cases c with
    | ports => exact fun xy => (ports_exact_iff hp hs).mpr hports xy.1 xy.2
    | set field =>
      exact (set_exact_iff regex_match le T2 terms haccepts field).mpr fun t ht => hsets t ht field
    | text field => exact (textExact_iff regex_match le T2 terms field).mpr (htexts field)

/-- The web servers of a VN. -/
def webSessions : List SessionMatch :=
  [⟨.protocol, .EQUAL, "6", ""⟩, ⟨.server_port, .IN_RANGE, "80", "443"⟩,
    ⟨.text .vn, .EQUAL, "web", ""⟩]

def webUnits : List DbQueryUnit :=
  [⟨[6, 80], [6, 443], [⟨"column21", .EQ, "web".toList⟩]⟩]

theorem webSessions_parsed : orTerm webSessions = some webUnits := by
  rfl

theorem webSessions_reads : ∀ t ∈ webSessions, t.ReadsNumbers := by
  unfold SessionMatch.ReadsNumbers
  decide +kernel

theorem webSessions_ports : PortsExact webSessions := by
  refine .inr ⟨.inl (by decide +kernel), .inr ⟨?_, ?_⟩⟩
  · unfold WithinAll
    decide +kernel
  · unfold WithinAll
    decide +kernel

/-- One protocol, a range of ports and a VN by its name are answered as asked. -/
theorem session_where_sample : PortsExact webSessions ∧
    ∀ row, Admits 5 webUnits row ↔
      ∀ t ∈ webSessions, t.Holds (fun _ _ => false) (fun _ _ _ => false) row := by
  refine ⟨webSessions_ports, (session_where_iff _ _ webSessions_parsed webSessions_reads 5).mpr
    (.inl ⟨webSessions_ports, by simp [webSessions], fun field => ?_⟩)⟩
  cases field with
  | vn => exact fun text => Iff.rfl
  | _ => trivial

/-- A range of protocols and one port. -/
def portOfProtocols : List SessionMatch :=
  [⟨.protocol, .IN_RANGE, "6", "17"⟩, ⟨.server_port, .EQUAL, "80", ""⟩]

/-- With a range of protocols the higher ports of the first one are admitted as well. -/
theorem not_session_where :
    ¬ ∀ (regex_match : Text → Text → Bool) (le : TextField → Text → Text → Bool)
      (terms : List SessionMatch) (units : List DbQueryUnit), orTerm terms = some units →
      (∀ t ∈ terms, t.ReadsNumbers) → ∀ (T2 : Nat) (row : SessionRow),
        Admits T2 units row ↔ ∀ t ∈ terms, t.Holds regex_match le row := by
  intro hclaim
  have hreads : ∀ t ∈ portOfProtocols, t.ReadsNumbers := by
    unfold SessionMatch.ReadsNumbers
    decide +kernel
  have hrow := hclaim (fun _ _ => false) (fun _ _ _ => false) portOfProtocols
    [⟨[6, 80], [17, 80], []⟩] rfl hreads 5 ⟨6, 81, fun _ => [], fun _ => []⟩
  have hadmits : Admits 5 [⟨[6, 80], [17, 80], []⟩] ⟨6, 81, fun _ => [], fun _ => []⟩ := by
    intro unit hunit
    obtain rfl := List.mem_singleton.mp hunit
    refine ⟨?_, fun info hinfo => absurd hinfo List.not_mem_nil⟩
    show inSlice [6, 80] [17, 80] [6, 81]
    unfold inSlice
    decide
  have hport : 81 = decimalValue "80" :=
    hrow.mp hadmits ⟨.server_port, .EQUAL, "80", ""⟩ (by decide)
  exact absurd hport (by decide +kernel)

end TfAnalytics.QueryEngine.SessionWhere
