import TfAnalytics.QueryEngine.FlowTerms

/-!
# Query engine — what the database answers to a flow query

A slice of the protocol and the server port is that of the two predicates if the one on
the protocol is of one number. An index column is compared as the predicate says if its
value has no `%` of its own.

* `holds_of_selects` — a row in the answer satisfies what no filter checks.
* `selects_of_holds` — a row that satisfies the OR term is in the answer.
-/

namespace TfAnalytics.QueryEngine.FlowWhere

open TfAnalytics.Lib TfAnalytics.Collector

-- ---------------------------------------------------------------------------
-- Slices
-- ---------------------------------------------------------------------------

theorem readUint16_of_isDecimal {value : String} (h : IsDecimal value) :
    (readUint16 value).val = min (decimalValue value) 0xffff := by
  obtain ⟨hne, hdigits⟩ := h
  unfold readUint16 decimalValue
  rw [dropWhile_isWhitespace hne hdigits]
  split
  · next rest hs => exact absurd (hdigits '-' (by simp [hs])) (by decide)
  · next rest hs => exact absurd (hdigits '+' (by simp [hs])) (by decide)
  · exact Nat.mod_eq_of_lt (by omega)

/-- The bounds say what the predicate says. -/
theorem exists_bounds {t : WhereMatch} (hreads : t.ReadsNumbers)
    (hop : t.op = .IN_RANGE ∨ t.op = .EQUAL) :
    ∃ low high, bounds t = ([low], [high]) ∧ (t.SingleNumber → low = high) ∧
      ∀ n : Fin (2 ^ 16), t.HoldsNumber n.val ↔ low ≤ n ∧ n ≤ high := by
  obtain ⟨hdecimal, hfits, hrange⟩ := hreads
  have hlow : (readUint16 t.value).val = decimalValue t.value := by
    rw [readUint16_of_isDecimal hdecimal]
    omega
  unfold bounds WhereMatch.HoldsNumber
  rcases hop with hop | hop
  · have hhigh := readUint16_of_isDecimal (hrange hop)
    refine ⟨readUint16 t.value, readUint16 t.value2, ?_, ?_, ?_⟩
    · rw [hop]
      rfl
    · rintro (heq | heq)
      · rw [hop] at heq
        cases heq
      · refine Fin.ext ?_
        rw [hlow, hhigh, ← heq]
        omega
    · intro n
      rw [hop]
      simp only [hdecimal, hrange hop, true_and, Fin.le_def, hlow, hhigh]
      omega
  · refine ⟨readUint16 t.value, readUint16 t.value, ?_, fun _ => rfl, ?_⟩
    · rw [hop]
      rfl
    · intro n
      rw [hop]
      simp only [hdecimal, true_and, Fin.le_def, hlow]
      omega

theorem inSlice_iff {start_ finish_ key : List (Fin (2 ^ 16))} :
    inSlice start_ finish_ key ↔
      ¬ key.take start_.length < start_ ∧ ¬ finish_ < key.take finish_.length := by
  rw [inSlice, not_lt, not_lt]

theorem inSlice_protocol_iff (low high x y : Fin (2 ^ 16)) :
    inSlice ([low] ++ []) ([high] ++ [0xffff]) [x, y] ↔ low ≤ x ∧ x ≤ high := by
  have hy : ¬ (0xffff : Fin (2 ^ 16)).val < y.val := by
    have := y.isLt
    show ¬ 65535 < y.val
    omega
  rw [inSlice_iff]
  simp only [List.append_nil, List.cons_append, List.nil_append, List.length_cons, List.length_nil,
    List.take_succ_cons, List.take_zero, List.cons_lt_cons_iff, List.not_lt_nil, Fin.lt_def,
    Fin.le_def, Fin.ext_iff, and_false, or_false]
  constructor
  · rintro ⟨hstart, hfinish⟩
    exact ⟨by omega, by omega⟩
  · rintro ⟨hstart, hfinish⟩
    exact ⟨by omega, by omega⟩

theorem inSlice_port_iff (low high a b x y : Fin (2 ^ 16)) :
    inSlice ([low] ++ [a]) ([high] ++ [b]) [x, y] ↔
      (low < x ∨ low = x ∧ a ≤ y) ∧ (x < high ∨ x = high ∧ y ≤ b) := by
  rw [inSlice_iff]
  simp only [List.cons_append, List.nil_append, List.length_cons, List.length_nil,
    List.take_succ_cons, List.take_zero, List.cons_lt_cons_iff, List.not_lt_nil, Fin.lt_def,
    Fin.le_def, Fin.ext_iff, and_false, or_false]
  constructor
  · rintro ⟨hstart, hfinish⟩
    exact ⟨by omega, by omega⟩
  · rintro ⟨hstart, hfinish⟩
    exact ⟨by omega, by omega⟩

/-- The numbers of a predicate are read as they are written. -/
def Numeric (t : WhereMatch) : Prop := t.ReadsNumbers ∧ (t.op = .IN_RANGE ∨ t.op = .EQUAL)

section Slices

variable {m : FlowMatch} {port : FlowField} {ports : List (Fin (2 ^ 16)) × List (Fin (2 ^ 16))}
  (hports : portBounds m port = some ports)
  (hproto : ∀ t, m.matched .protocol = some t → Numeric t)
  (hport : ∀ t, m.matched port = some t → Numeric t)

include hports hproto hport

/-- The bounds of the slice, with the predicates they stand for. -/
theorem exists_slice_bounds :
    ∃ low high, protocolBounds m = ([low], [high]) ∧
      (∀ x : Fin (2 ^ 16), (low ≤ x ∧ x ≤ high) ↔
        ∀ t, m.matched .protocol = some t → t.HoldsNumber x.val) ∧
      ((m.matched port = none ∧ ports = ([], [0xffff])) ∨
        ∃ t t' a b, m.matched port = some t ∧ m.matched .protocol = some t' ∧
          ports = ([a], [b]) ∧ (t'.SingleNumber → low = high) ∧
          ∀ y : Fin (2 ^ 16), t.HoldsNumber y.val ↔ a ≤ y ∧ y ≤ b) := by
  unfold portBounds at hports
  cases hmatched : m.matched .protocol with
  | none =>
    have hall : ∀ x : Fin (2 ^ 16), (0 : Fin (2 ^ 16)) ≤ x ∧ x ≤ 0xffff := by
      intro x
      have := x.isLt
      refine ⟨Fin.zero_le x, ?_⟩
      show x.val ≤ 65535
      omega
    refine ⟨0, 0xffff, by unfold protocolBounds; rw [hmatched], fun x => ?_, Or.inl ?_⟩
    · exact ⟨fun _ => nofun, fun _ => hall x⟩
    · rw [hmatched] at hports
      cases hp : m.matched port with
      | none =>
        rw [hp] at hports
        exact ⟨rfl, (Option.some.inj hports).symm⟩
      | some t =>
        rw [hp] at hports
        cases hports
  | some t' =>
    obtain ⟨low, high, hbounds, heq, hholds⟩ := exists_bounds (hproto t' hmatched).1
      (hproto t' hmatched).2
    refine ⟨low, high, ?_, ?_, ?_⟩
    · unfold protocolBounds
      rw [hmatched]
      exact hbounds
    · intro x
      rw [← hholds x]
      simp
    · rw [hmatched] at hports
      cases hp : m.matched port with
      | none =>
        rw [hp] at hports
        exact Or.inl ⟨rfl, (Option.some.inj hports).symm⟩
      | some t =>
        rw [hp] at hports
        obtain ⟨a, b, hab, -, hy⟩ := exists_bounds (hport t hp).1 (hport t hp).2
        refine Or.inr ⟨t, t', a, b, rfl, rfl, ?_, heq, hy⟩
        rw [← hab]
        exact (Option.some.inj hports).symm

/-- A row in the slice satisfies the predicate on the protocol, and the one on the
port if that on the protocol is of one number. -/
theorem holds_of_slice {x y : Fin (2 ^ 16)}
    (h : inSlice ((protocolBounds m).1 ++ ports.1) ((protocolBounds m).2 ++ ports.2) [x, y]) :
    (∀ t, m.matched .protocol = some t → t.HoldsNumber x.val) ∧
      ((∀ t, m.matched .protocol = some t → t.SingleNumber) →
        ∀ t, m.matched port = some t → t.HoldsNumber y.val) := by
  obtain ⟨low, high, hlow, hx, hcase⟩ := exists_slice_bounds hports hproto hport
  rw [hlow] at h
  rcases hcase with ⟨hnone, rfl⟩ | ⟨t, t', a, b, ht, ht', rfl, heq, hy⟩
  · refine ⟨(hx x).mp ((inSlice_protocol_iff ..).mp h), fun _ t ht => ?_⟩
    rw [hnone] at ht
    cases ht
  · have h := (inSlice_port_iff ..).mp h
    refine ⟨(hx x).mp ⟨by omega, by omega⟩, fun hequal t₁ ht₁ => ?_⟩
    have hsame : t = t₁ := Option.some.inj (ht.symm.trans ht₁)
    have hlh := heq (hequal t' ht')
    rw [← hsame, hy]
    exact ⟨by omega, by omega⟩

/-- A row that satisfies the predicates is in the slice. -/
theorem slice_of_holds {x y : Fin (2 ^ 16)}
    (hx : ∀ t, m.matched .protocol = some t → t.HoldsNumber x.val)
    (hy : ∀ t, m.matched port = some t → t.HoldsNumber y.val) :
    inSlice ((protocolBounds m).1 ++ ports.1) ((protocolBounds m).2 ++ ports.2) [x, y] := by
  obtain ⟨low, high, hlow, hxs, hcase⟩ := exists_slice_bounds hports hproto hport
  have hrange := (hxs x).mpr hx
  rw [hlow]
  rcases hcase with ⟨-, rfl⟩ | ⟨t, t', a, b, ht, -, rfl, -, hys⟩
  · exact (inSlice_protocol_iff ..).mpr hrange
  · have hports := (hys y).mp (hy t ht)
    exact (inSlice_port_iff ..).mpr ⟨by omega, by omega⟩

end Slices

-- ---------------------------------------------------------------------------
-- Index columns
-- ---------------------------------------------------------------------------

theorem like_prependT2_iff {T2 : Nat} {value text : Text} (hvalue : '%' ∉ value) :
    like (PrependT2 T2 (value ++ ['%'])) (PrependT2 T2 text) = true ↔ value <+: text := by
  have hpattern : PrependT2 T2 (value ++ ['%']) = PrependT2 T2 value ++ ['%'] := by
    unfold PrependT2
    rw [List.append_assoc, List.cons_append]
  have hpercent : '%' ∉ PrependT2 T2 value := by
    unfold PrependT2
    rw [List.mem_append, List.mem_cons]
    rintro (hdigit | heq | hmem)
    · exact not_mem_digits (by decide) T2 hdigit
    · cases heq
    · exact hvalue hmem
  rw [hpattern, like_append_percent_iff_prefix hpercent]
  unfold PrependT2
  rw [List.prefix_append_right_inj, List.cons_prefix_cons]
  exact ⟨fun h => h.2, fun h => ⟨rfl, h⟩⟩

/-- The database finds the texts that the predicate describes. -/
theorem index_iff {m : FlowMatch} {query_col column : String} {field : FlowField}
    {infos : List WhereIndexInfo} (hcolumn : query_column_to_cass_column query_col = some column)
    (hinfos : indexMatch m query_col field = some infos)
    (hliteral : ∀ t, m.matched field = some t → t.Literal ∧ (t.op = .EQUAL ∨ t.op = .PREFIX))
    {T2 : Nat} {row : SessionRow} {text : String}
    (hrow : row.column T2 column = some (PrependT2 T2 text.toList)) (ipOf : String → Nat) :
    (∀ info ∈ infos, (TagPredicate.index info).holds T2 (row.column T2) = true) ↔
      ∀ t, m.matched field = some t → t.HoldsText ipOf text := by
  unfold indexMatch at hinfos
  cases hmatched : m.matched field with
  | none =>
    rw [hmatched] at hinfos
    rw [← Option.some.inj hinfos]
    exact ⟨fun _ t ht => (Option.some_ne_none t ht.symm).elim,
      fun _ info hinfo => absurd hinfo List.not_mem_nil⟩
  | some t =>
    rw [hmatched] at hinfos
    obtain ⟨hlit, hop⟩ := hliteral t hmatched
    simp only [populate_where_vec, hcolumn, Option.map_some, Option.some.injEq] at hinfos
    have hone : (∀ t', some t = some t' → t'.HoldsText ipOf text) ↔ t.HoldsText ipOf text :=
      ⟨fun h => h t rfl, fun h t' ht' => Option.some.inj ht' ▸ h⟩
    rw [hone]
    unfold WhereMatch.HoldsText
    unfold WhereMatch.Literal at hlit
    rcases hop with hop | hop
    · rw [hop] at hinfos hlit ⊢
      simp only [reduceCtorEq, if_false] at hinfos hlit
      have hne : t.value.toList ≠ ['%'] := by
        intro heq
        rw [heq] at hlit
        exact hlit rfl
      rw [if_neg hne] at hinfos
      rw [← hinfos]
      simp only [List.mem_singleton, forall_eq, TagPredicate.holds, hrow, decide_eq_true_eq]
      rw [pipelineCb_eq_iff, String.toList_inj]
      exact ⟨fun h => h.2, fun h => ⟨hlit, h⟩⟩
    · rw [hop] at hinfos hlit ⊢
      simp only [if_true] at hinfos hlit
      cases hvalue : t.value.toList with
      | nil =>
        -- no condition at all
        rw [hvalue] at hinfos
        rw [← hinfos]
        exact ⟨fun _ => List.nil_prefix, fun _ info hinfo => absurd hinfo List.not_mem_nil⟩
      | cons c rest =>
        have hne : t.value.toList ++ ['%'] ≠ ['%'] := by
          rw [hvalue]
          simp
        have hhead : (t.value.toList ++ ['%']).head? ≠ some '%' := by
          rw [hvalue] at hlit ⊢
          intro heq
          exact hlit (by rw [Option.some.inj heq]; exact List.mem_cons_self)
        rw [if_neg hne] at hinfos
        rw [← hinfos, ← hvalue]
        simp only [List.mem_singleton, forall_eq, TagPredicate.holds, hrow]
        unfold PipelineCb
        rw [if_neg hhead]
        exact like_prependT2_iff hlit

-- ---------------------------------------------------------------------------
-- The query of the row's sessions
-- ---------------------------------------------------------------------------

theorem serverField_cases (direction_ing : Direction) (row : SessionRow) :
    row.serverField direction_ing = .sport ∨ row.serverField direction_ing = .dport := by
  unfold SessionRow.serverField
  split
  · exact Or.inr rfl
  · exact Or.inl rfl

section Ports

variable {δ : Type} {C : Conversions δ} {q : FlowQuery} {row : SessionRow} {t : WhereMatch}

theorem readRight_port (hfield : t.field = .sport ∨ t.field = .dport)
    (hright : ReadRight C q row t) : t.ReadsNumbers ∧
      (t.field = row.serverField q.direction_ing ∨ t.op = .EQUAL ∧ q.unroll_needed = true) := by
  unfold ReadRight at hright
  rcases hfield with hfield | hfield
  all_goals
    simp only [hfield] at hright
    rw [hfield]
    refine ⟨hright.1, ?_⟩
    split at hright
    · next hserver => exact Or.inl hserver
    · exact Or.inr hright.2

theorem numeric_port (hfield : t.field = .sport ∨ t.field = .dport)
    (haccepts : t.field.accepts t.op = true) (hright : ReadRight C q row t) : Numeric t := by
  refine ⟨(readRight_port hfield hright).1, ?_⟩
  rcases hfield with hfield | hfield
  all_goals
    rw [hfield] at haccepts
    simpa [FlowField.accepts] using haccepts

end Ports

/-- The predicate on the server port is a range: the slice takes care of it. -/
def ServerRange (q : FlowQuery) (row : SessionRow) (t : WhereMatch) : Prop :=
  t.field = row.serverField q.direction_ing ∧ t.op = .IN_RANGE

/-- The field on the local IP. -/
def localField (direction_ing : Direction) : FlowField :=
  if direction_ing = .INGRESS then .sourceip else .destip

/-- No filter checks the predicate. -/
def Unfiltered (q : FlowQuery) (row : SessionRow) (t : WhereMatch) : Prop :=
  t.field = .protocol ∨ t.field ∈ [localField q.direction_ing, .sourcevn, .destvn] ∨
    ServerRange q row t

/-- What the query of the sessions of one type is made of. -/
structure Query (m : FlowMatch) (direction_ing : Direction) (port : FlowField)
    (unit : DbQueryUnit) where
  ports : List (Fin (2 ^ 16)) × List (Fin (2 ^ 16))
  ip : List WhereIndexInfo
  vn : List WhereIndexInfo
  remote_vn : List WhereIndexInfo
  ports_eq : portBounds m port = some ports
  ip_eq : indexMatch m "local_ip" (localField direction_ing) = some ip
  vn_eq : indexMatch m "vn" (if direction_ing = .INGRESS then .sourcevn else .destvn) = some vn
  remote_vn_eq : indexMatch m "remote_vn"
    (if direction_ing = .INGRESS then .destvn else .sourcevn) = some remote_vn
  start_eq : unit.start_ = (protocolBounds m).1 ++ ports.1
  finish_eq : unit.finish_ = (protocolBounds m).2 ++ ports.2
  where_eq : unit.where_vec = ip ++ vn ++ remote_vn

theorem exists_query {m : FlowMatch} {direction_ing : Direction} {session_type : SessionType}
    {port : FlowField} {unit : DbQueryUnit}
    (h : session_query direction_ing session_type port m = some unit) :
    unit.session_type = session_type ∧ Nonempty (Query m direction_ing port unit) := by
  unfold session_query at h
  obtain ⟨ports, hports, h⟩ := Option.bind_eq_some_iff.mp h
  obtain ⟨ip, hip, h⟩ := Option.bind_eq_some_iff.mp h
  obtain ⟨vn, hvn, h⟩ := Option.bind_eq_some_iff.mp h
  obtain ⟨remote_vn, hremote, h⟩ := Option.bind_eq_some_iff.mp h
  injection h with h
  rw [← h]
  exact ⟨rfl, ⟨⟨ports, ip, vn, remote_vn, hports, hip, hvn, hremote, rfl, rfl, rfl⟩⟩⟩

/-- The one of the two queries that asks for the row's sessions has its server port
among the clustering columns. -/
theorem exists_unit (q : FlowQuery) (T2 : Nat) (row : SessionRow) :
    ∃ m unit, Found q.direction_ing q.terms m ∧
      q.term.filter_and = m.filter_and ∧ q.term.additional_select_ = m.additional_select_ ∧
      Nonempty (Query m q.direction_ing (row.serverField q.direction_ing) unit) ∧
      unit.session_type = row.session_type ∧
      ((∃ unit' ∈ q.term.units, unit'.Selects T2 row) ↔ unit.Selects T2 row) := by
  obtain ⟨m, client, server, hfound, hclient, hserver, hterm⟩ := exists_of_orTerm q.parsed
  obtain ⟨hclient_type, hclient⟩ := exists_query hclient
  obtain ⟨hserver_type, hserver⟩ := exists_query hserver
  have hunits : q.term.units = [client, server] := by rw [hterm]
  have hother : ∀ unit : DbQueryUnit, unit.session_type ≠ row.session_type →
      ¬ unit.Selects T2 row := fun unit hne h => hne h.type_eq
  cases htype : row.session_type with
  | CLIENT_SESSION =>
    refine ⟨m, client, hfound, by rw [hterm], by rw [hterm], ?_, hclient_type, ?_⟩
    · have hfield : row.serverField q.direction_ing =
          if q.direction_ing = .INGRESS then .dport else .sport := by
        simp [SessionRow.serverField, htype]
      rw [hfield]
      exact hclient
    · have := hother server (by rw [hserver_type, htype]; decide)
      simp [hunits, this]
  | SERVER_SESSION =>
    refine ⟨m, server, hfound, by rw [hterm], by rw [hterm], ?_, hserver_type, ?_⟩
    · have hfield : row.serverField q.direction_ing =
          if q.direction_ing = .INGRESS then .sport else .dport := by
        cases hdir : q.direction_ing <;> simp [SessionRow.serverField, htype]
      rw [hfield]
      exact hserver
    · have := hother client (by rw [hclient_type, htype]; decide)
      simp [hunits, this]

theorem unfiltered_of_leftover {q : FlowQuery} {row : SessionRow} {t : WhereMatch}
    (h : leftover q.direction_ing t = none) : Unfiltered q row t := by
  unfold leftover at h
  unfold Unfiltered localField
  cases hfield : t.field with
  | protocol => exact Or.inl rfl
  | sourcevn | destvn => simp
  | sourceip | destip =>
    simp only [hfield] at h
    cases hdir : q.direction_ing <;> simp [hdir] at h ⊢
  | vrouter =>
    simp only [hfield] at h
    split at h <;> cases h
  | sport | dport =>
    simp only [hfield] at h
    cases h

theorem holds_protocol {t : WhereMatch} (h : t.field = .protocol) {ipOf : String → Nat}
    {direction_ing : Direction} {row : SessionRow} :
    t.Holds ipOf direction_ing row ↔ t.HoldsNumber row.protocol.val := by
  unfold WhereMatch.Holds
  rw [h]
  rfl

theorem holds_serverField {t : WhereMatch} {direction_ing : Direction} {row : SessionRow}
    (h : t.field = row.serverField direction_ing) {ipOf : String → Nat} :
    t.Holds ipOf direction_ing row ↔ t.HoldsNumber row.server_port.val := by
  have hfield : t.field = .sport ∨ t.field = .dport := by
    rw [h]
    exact serverField_cases direction_ing row
  have hnumber : row.number direction_ing t.field = row.server_port := by
    rcases hfield with hfield | hfield
    all_goals
      rw [hfield] at h ⊢
      exact if_pos h
  rw [← hnumber]
  unfold WhereMatch.Holds
  rcases hfield with hfield | hfield <;> rw [hfield]

theorem holds_indexed {t : WhereMatch} {direction_ing : Direction}
    (h : t.field ∈ [localField direction_ing, .sourcevn, .destvn]) {ipOf : String → Nat}
    {row : SessionRow} : t.Holds ipOf direction_ing row ↔
      t.HoldsText ipOf (row.text direction_ing t.field) := by
  have hfield : t.field = .sourceip ∨ t.field = .destip ∨ t.field = .sourcevn ∨
      t.field = .destvn := by
    unfold localField at h
    cases direction_ing <;> simp at h <;> tauto
  unfold WhereMatch.Holds
  rcases hfield with hfield | hfield | hfield | hfield <;> rw [hfield]

theorem readRight_range {δ : Type} {C : Conversions δ} {q : FlowQuery} {row : SessionRow}
    {t : WhereMatch} (hserver : t.field = row.serverField q.direction_ing) (hop : t.op = .IN_RANGE)
    (hright : ReadRight C q row t) :
    ∀ t' ∈ q.terms, t'.field = .protocol → t'.SingleNumber := by
  have hfield : t.field = .sport ∨ t.field = .dport := by
    rw [hserver]
    exact serverField_cases q.direction_ing row
  unfold ReadRight at hright
  rcases hfield with hfield | hfield
  all_goals
    simp only [hfield] at hright
    rw [hfield] at hserver
    rw [if_pos hserver] at hright
    exact hright.2 hop

section Selects

variable {δ : Type} {C : Conversions δ} {q : FlowQuery} {row : SessionRow} {m : FlowMatch}
  (hfound : Found q.direction_ing q.terms m) (hright : ∀ t ∈ q.terms, ReadRight C q row t)

include hfound in
theorem Found.matched {field : FlowField} {t : WhereMatch} (h : m.matched field = some t) :
    t ∈ q.terms ∧ t.field = field ∧ t.field.accepts t.op = true := by
  rw [hfound.matched_eq] at h
  obtain ⟨hmem, hfield⟩ := mem_of_lastOn h
  exact ⟨hmem, hfield, hfound.accepted t hmem⟩

include hfound hright

theorem numeric_protocol {t : WhereMatch} (h : m.matched .protocol = some t) : Numeric t := by
  obtain ⟨hmem, hfield, haccepts⟩ := hfound.matched h
  have hreads := hright t hmem
  simp only [ReadRight, hfield] at hreads
  rw [hfield] at haccepts
  exact ⟨hreads, by simpa [FlowField.accepts] using haccepts⟩

theorem numeric_serverField {t : WhereMatch}
    (h : m.matched (row.serverField q.direction_ing) = some t) : Numeric t := by
  obtain ⟨hmem, hfield, haccepts⟩ := hfound.matched h
  refine numeric_port ?_ haccepts (hright t hmem)
  rw [hfield]
  exact serverField_cases q.direction_ing row

theorem literal_vn {field : FlowField} (hvn : field = .sourcevn ∨ field = .destvn)
    {t : WhereMatch} (h : m.matched field = some t) :
    t.Literal ∧ (t.op = .EQUAL ∨ t.op = .PREFIX) := by
  obtain ⟨hmem, rfl, haccepts⟩ := hfound.matched h
  have hliteral := hright t hmem
  unfold ReadRight at hliteral
  rcases hvn with hvn | hvn
  all_goals
    rw [hvn] at haccepts
    simp only [hvn] at hliteral
    exact ⟨hliteral, by simpa [FlowField.accepts] using haccepts⟩

theorem literal_localField {t : WhereMatch} (h : m.matched (localField q.direction_ing) = some t) :
    t.Literal ∧ (t.op = .EQUAL ∨ t.op = .PREFIX) := by
  obtain ⟨hmem, hfield, -⟩ := hfound.matched h
  have hliteral := hright t hmem
  unfold ReadRight at hliteral
  unfold localField at hfield
  split at hfield
  · next hdir =>
    simp only [hfield, hdir, if_true] at hliteral
    exact ⟨hliteral.2, Or.inl hliteral.1⟩
  · next hdir =>
    simp only [hfield, hdir, reduceCtorEq, if_true] at hliteral
    exact ⟨hliteral.2, Or.inl hliteral.1⟩

/-- The conditions on the index columns are the predicates on the texts there. -/
theorem indexes_iff {port : FlowField} {unit : DbQueryUnit}
    (query : Query m q.direction_ing port unit) (T2 : Nat) (ipOf : String → Nat) :
    (∀ info ∈ unit.where_vec, (TagPredicate.index info).holds T2 (row.column T2) = true) ↔
      ∀ field ∈ [localField q.direction_ing, .sourcevn, .destvn],
        ∀ t, m.matched field = some t → t.HoldsText ipOf (row.text q.direction_ing field) := by
  have hip_column : row.column T2 "column20" = some (PrependT2 T2 row.local_ip.toList) := rfl
  have hvn_column : row.column T2 "column21" = some (PrependT2 T2 row.vn.toList) := rfl
  have hremote_column : row.column T2 "column22" = some (PrependT2 T2 row.remote_vn.toList) := rfl
  have hip := index_iff rfl query.ip_eq (fun t => literal_localField hfound hright) hip_column ipOf
  have hvn := index_iff rfl query.vn_eq
    (fun t => literal_vn hfound hright (by split <;> simp)) hvn_column ipOf
  have hremote := index_iff rfl query.remote_vn_eq
    (fun t => literal_vn hfound hright (by split <;> simp)) hremote_column ipOf
  simp only [query.where_eq, List.forall_mem_append, List.forall_mem_cons]
  rw [hip, hvn, hremote]
  unfold localField SessionRow.text
  by_cases hdir : q.direction_ing = .INGRESS
  · simp [hdir, and_assoc]
  · simp [hdir, and_assoc, and_comm]

theorem selects_iff {unit : DbQueryUnit} (htype : unit.session_type = row.session_type)
    (query : Query m q.direction_ing (row.serverField q.direction_ing) unit) (T2 : Nat)
    (ipOf : String → Nat) :
    unit.Selects T2 row ↔
      inSlice ((protocolBounds m).1 ++ query.ports.1) ((protocolBounds m).2 ++ query.ports.2)
        [row.protocol, row.server_port] ∧
      ∀ field ∈ [localField q.direction_ing, .sourcevn, .destvn],
        ∀ t, m.matched field = some t → t.HoldsText ipOf (row.text q.direction_ing field) := by
  rw [← query.start_eq, ← query.finish_eq, ← indexes_iff hfound hright query T2 ipOf]
  exact ⟨fun h => ⟨h.slice, h.indexes⟩, fun h => ⟨htype, h.1, h.2⟩⟩

/-- A row in the answer of the database satisfies the predicates that no filter checks. -/
theorem holds_of_selects {unit : DbQueryUnit} {T2 : Nat}
    (query : Query m q.direction_ing (row.serverField q.direction_ing) unit)
    (h : unit.Selects T2 row) (ipOf : String → Nat) {t : WhereMatch}
    (ht : m.matched t.field = some t)
    (hunfiltered : Unfiltered q row t) :
    t.Holds ipOf q.direction_ing row := by
  obtain ⟨hslice, hindexes⟩ := (selects_iff hfound hright h.type_eq query T2 ipOf).mp h
  obtain ⟨hprotocol, hport⟩ := holds_of_slice query.ports_eq
    (fun t => numeric_protocol hfound hright) (fun t => numeric_serverField hfound hright) hslice
  rcases hunfiltered with hfield | hfield | ⟨hserver, hop⟩
  · rw [holds_protocol hfield]
    exact hprotocol t (hfield ▸ ht)
  · rw [holds_indexed hfield]
    exact hindexes t.field hfield t ht
  · rw [holds_serverField hserver]
    refine hport ?_ t (hserver ▸ ht)
    intro t' ht'
    obtain ⟨hmem', hfield', -⟩ := hfound.matched ht'
    exact readRight_range hserver hop (hright t (hfound.matched ht).1) t' hmem' hfield'

/-- A row that satisfies the predicates is in the answer of the database. -/
theorem selects_of_holds {unit : DbQueryUnit} (htype : unit.session_type = row.session_type)
    (query : Query m q.direction_ing (row.serverField q.direction_ing) unit) (T2 : Nat)
    {ipOf : String → Nat} (h : ∀ t ∈ q.terms, t.Holds ipOf q.direction_ing row) :
    unit.Selects T2 row := by
  refine (selects_iff hfound hright htype query T2 ipOf).mpr ⟨?_, ?_⟩
  · refine slice_of_holds query.ports_eq (fun t => numeric_protocol hfound hright)
      (fun t => numeric_serverField hfound hright) ?_ ?_
    · intro t ht
      obtain ⟨hmem, hfield, -⟩ := hfound.matched ht
      exact (holds_protocol hfield).mp (h t hmem)
    · intro t ht
      obtain ⟨hmem, hfield, -⟩ := hfound.matched ht
      exact (holds_serverField hfield).mp (h t hmem)
  · intro field hin t ht
    obtain ⟨hmem, hfield, -⟩ := hfound.matched ht
    subst hfield
    exact (holds_indexed hin).mp (h t hmem)

end Selects

end TfAnalytics.QueryEngine.FlowWhere
