import Mathlib
import TfAnalytics.QueryEngine.FlowSlices

/-!
# Query engine — the WHERE clause of a flow query is respected

The filters look for an attribute under the name it has for the flow. They let a row pass
that does not have it: the remote IP and the client's port come from the session map, which
is unrolled only if such a field is selected, and `session2flow_maps` has "soureceip" for
the source of an egress flow of a client session.

* `flow_where_respected` — a session row is admitted exactly when it satisfies the
  WHERE clause, for the predicates that are read right on it.
-/

namespace TfAnalytics.QueryEngine.FlowWhere

open TfAnalytics.Lib TfAnalytics.Collector

-- ---------------------------------------------------------------------------
-- The attributes filters look at
-- ---------------------------------------------------------------------------

/-- A name that is selected as a column of the group. -/
def PlainColumn (name : String) : Prop :=
  ∀ S : StatsSelect,
    S.addField name = some (some { S with unik_cols_ := S.unik_cols_.insert name () })

theorem addField_keeps {S S' : StatsSelect} {field : String}
    (h : S.addField field = some (some S')) :
    S'.status_ = S.status_ ∧ ∀ n, S.unik_cols_.has n = true → S'.unik_cols_.has n = true := by
  rcases StatsSelect.addField_cases h with ⟨-, -, rfl⟩ | ⟨-, -, period, -, rfl⟩ | ⟨-, hadds⟩
  · exact ⟨rfl, fun _ hn => hn⟩
  · exact ⟨rfl, fun _ hn => hn⟩
  · exact ⟨hadds.status, hadds.unik⟩

theorem addFields_has {fields : List String} {S S' : StatsSelect}
    (h : S.addFields fields = some S') (hstart : S.status_ = false) (hstatus : S'.status_ = true)
    {n : String} (hn : S.unik_cols_.has n = true ∨ PlainColumn n ∧ n ∈ fields) :
    S'.unik_cols_.has n = true := by
  induction fields generalizing S with
  | nil =>
    injection h with h
    rw [← h]
    exact hn.elim id fun hn => absurd hn.2 List.not_mem_nil
  | cons field rest ih =>
    unfold StatsSelect.addFields at h
    cases hadd : S.addField field with
    | none =>
      rw [hadd] at h
      cases h
    | some added =>
      rw [hadd] at h
      cases added with
      | none =>
        -- an early return leaves the status unset
        injection h with h
        rw [← h, hstart] at hstatus
        cases hstatus
      | some S₁ =>
        have hkeeps := addField_keeps hadd
        refine ih h (hkeeps.1.trans hstart) ?_
        rcases hn with hn | ⟨hplain, hn⟩
        · exact Or.inl (hkeeps.2 n hn)
        · rcases List.mem_cons.mp hn with rfl | hn
          · have hinsert := hplain S
            rw [hadd] at hinsert
            injection hinsert with hinsert
            injection hinsert with hinsert
            rw [hinsert]
            exact Or.inl ((StringSet.has_insert _ _ _).mpr (Or.inr rfl))
          · exact Or.inr ⟨hplain, hn⟩

/-- What WHERE adds to the selected columns is there. -/
theorem FlowQuery.has_column (q : FlowQuery) {n : String} (hplain : PlainColumn n)
    (hn : n ∈ q.term.additional_select_) : q.stats.unik_cols_.has n = true := by
  obtain ⟨known, hbuilt⟩ := q.built
  obtain ⟨S, hS, hsort⟩ := Option.bind_eq_some_iff.mp hbuilt
  have hkeeps := StatsSelect.setSortFields_keeps hsort
  have hstatus : S.status_ = true := by
    have := hkeeps.1.symm.trans q.status
    split at this <;> exact this
  have hunik : q.stats.unik_cols_ = S.unik_cols_ := by
    rw [hkeeps.2.2]
    split <;> rfl
  rw [hunik]
  exact addFields_has hS rfl hstatus (Or.inr ⟨hplain, List.mem_append_right _ hn⟩)

/-- An attribute of a row that is selected. -/
theorem FlowQuery.attrs_find? {δ : Type} (q : FlowQuery) (u : Nat) (timestamp : Fin (2 ^ 64))
    (row : SessionRow) {n : String} (hhas : q.stats.unik_cols_.has n = true)
    (hn : n ≠ STAT_UUID_FIELD ∧ n ≠ STAT_TIME_FIELD ∧ n ≠ STAT_TIMEBIN_FIELD) :
    (q.attrs u timestamp row : StatMap δ).find? n =
      ((flowAttribs q.direction_ing q.unroll_needed row).find? fun it => it.name = n).map
        StatEntry.value := by
  have hrow : ∀ l : List (StatEntry δ),
      findList n ((l.filter fun it => q.stats.unik_cols_.has it.name).map fun it =>
        (it.name, it.value)) = (l.find? fun it => it.name = n).map StatEntry.value := by
    intro l
    induction l with
    | nil => rfl
    | cons it l ih =>
      by_cases hit : it.name = n
      · have hkeep : q.stats.unik_cols_.has it.name = true := hit ▸ hhas
        rw [List.filter_cons, if_pos hkeep, List.find?_cons_of_pos (by simpa using hit)]
        simp [findList, hit]
      · rw [List.find?_cons_of_neg (by simpa using hit), ← ih, List.filter_cons]
        split
        · rw [List.map_cons, findList, if_neg fun heq => hit heq.symm]
        · rfl
  unfold FlowQuery.attrs StatsSelect.buildUniks
  rw [OrderedMap.find?_ofList, ← hrow]
  unfold StatsSelect.unikPairs
  obtain ⟨huuid, htime, hbin⟩ := hn
  have hskip : ∀ (b : Prop) [Decidable b] (name : String) (v : StatVal δ), n ≠ name →
      findList n (if b then [(name, v)] else []) = none := by
    intro b _ name v hne
    split
    · simp [findList, hne]
    · rfl
  rw [findList_append, findList_append, findList_append, hskip _ _ _ huuid, hskip _ _ _ htime,
    hskip _ _ _ hbin]
  rfl

section Lookup

variable {δ : Type} {direction_ing : Direction} {unroll_needed : Bool} {row : SessionRow}

/-- The value of an attribute of the row, under the name it has for the flow. -/
def flowAttr (direction_ing : Direction) (unroll_needed : Bool) (row : SessionRow)
    (name : String) : Option (StatVal δ) :=
  ((flowAttribs direction_ing unroll_needed row).find? fun it => it.name = name).map
    StatEntry.value

theorem flowAttr_vrouter (h : row.vrouter ≠ "") :
    (flowAttr direction_ing unroll_needed row "vrouter" : Option (StatVal δ)) =
      some (.string row.vrouter) := by
  obtain ⟨type, _, _, _, _, _, _, _, vrouter⟩ := row
  have h : ¬ vrouter = "" := h
  cases direction_ing <;> cases type <;> cases unroll_needed <;>
    simp [flowAttr, flowAttribs, sessionAttribs, map_session_to_flow, session2flow_map,
      numberEntry, h, List.lookup_cons]

/-- A port: the server's, or the client's if it is known. -/
theorem flowAttr_port {field : FlowField} {name : String}
    (hname : field = .sport ∧ name = "sport" ∨ field = .dport ∧ name = "dport")
    (h : field = row.serverField direction_ing ∨ unroll_needed = true) :
    (flowAttr direction_ing unroll_needed row name : Option (StatVal δ)) =
      some (.uint64 ((row.number direction_ing field).castLE (by decide))) := by
  obtain ⟨type, _, _, _, _, _, _, _, _⟩ := row
  rcases h with hserver | rfl
  · -- two of the four flows have the server's port under the name; the others contradict `hserver`
    rcases hname with ⟨rfl, rfl⟩ | ⟨rfl, rfl⟩ <;> cases direction_ing <;> cases type <;>
      cases unroll_needed <;> first | rfl | cases hserver
  · rcases hname with ⟨rfl, rfl⟩ | ⟨rfl, rfl⟩ <;> cases direction_ing <;> cases type <;> rfl

theorem flowAttr_remote_ip {name : String} (hunroll : unroll_needed = true)
    (hname : direction_ing = .INGRESS ∧ name = "destip" ∨
      direction_ing = .EGRESS ∧ row.session_type = .SERVER_SESSION ∧ name = "sourceip") :
    (flowAttr direction_ing unroll_needed row name : Option (StatVal δ)) =
      some (.string row.remote_ip) := by
  obtain ⟨type, _, _, _, _, _, _, _, _⟩ := row
  subst hunroll
  rcases hname with ⟨rfl, rfl⟩ | ⟨rfl, htype, rfl⟩
  · cases type <;> rfl
  · have htype : type = .SERVER_SESSION := htype
    rw [htype]
    rfl

end Lookup

-- ---------------------------------------------------------------------------
-- What is left to the filters
-- ---------------------------------------------------------------------------

theorem plainColumn_leftover {direction_ing : Direction} {t : WhereMatch} {f : FilterMatch}
    (h : leftover direction_ing t = some f) : PlainColumn f.name ∧
      f.name ≠ STAT_UUID_FIELD ∧ f.name ≠ STAT_TIME_FIELD ∧ f.name ≠ STAT_TIMEBIN_FIELD := by
  have hnames : f.name = "sourceip" ∨ f.name = "destip" ∨ f.name = "sport" ∨ f.name = "dport" ∨
      f.name = "vrouter" := by
    unfold leftover at h
    split at h
    · split at h
      · cases h
        exact Or.inl rfl
      · cases h
    · split at h
      · cases h
        exact Or.inr (Or.inl rfl)
      · cases h
    · cases h
      exact Or.inr (Or.inr (Or.inl rfl))
    · cases h
      exact Or.inr (Or.inr (Or.inr (Or.inl rfl)))
    · split at h <;> cases h <;> exact Or.inr (Or.inr (Or.inr (Or.inr rfl)))
    all_goals cases h
  rcases hnames with hname | hname | hname | hname | hname <;> rw [hname] <;>
    exact ⟨fun S => rfl, by decide, by decide, by decide⟩

theorem toString_inj {n n' : Nat} : toString n = toString n' ↔ n = n' := by
  refine ⟨fun h => ?_, fun h => by rw [h]⟩
  have := congrArg decimalValue h
  rwa [decimalValue_toString, decimalValue_toString] at this

variable {δ : Type} [LinearOrder δ] {C : Conversions δ}

/-- The check of a filter on a port. -/
theorem statCheck_port {name : String} {t : WhereMatch} (hnumeric : Numeric t) (n : Fin (2 ^ 16)) :
    statCheck C { name := name, value := toString (readUint16 t.value).val, op := t.op }
        (.uint64 (n.castLE (by decide))) = true ↔
      t.HoldsNumber n.val ∨ t.op = .IN_RANGE := by
  obtain ⟨hreads, hop⟩ := hnumeric
  obtain ⟨low, high, hbounds, heq, hholds⟩ := exists_bounds hreads hop
  have hlow : readUint16 t.value = low := by
    have := congrArg Prod.fst hbounds
    exact (List.cons.inj this).1
  rcases hop with hop | hop
  · rw [hop]
    exact ⟨fun _ => Or.inr rfl, fun _ => rfl⟩
  · rw [hholds n, ← heq (Or.inl hop), ← hlow, hop]
    show decide (toString (readUint16 t.value).val = toString n.val) = true ↔ _
    rw [decide_eq_true_iff, toString_inj]
    simp only [Fin.le_def, reduceCtorEq, or_false]
    omega

section Leftovers

variable {q : FlowQuery} {row : SessionRow} {t : WhereMatch} {f : FilterMatch}

/-- The filter finds its attribute, and checks what the predicate says. -/
def Checks (C : Conversions δ) (ipOf : String → Nat) (q : FlowQuery) (row : SessionRow)
    (t : WhereMatch) (f : FilterMatch) : Prop :=
  ∃ v, flowAttr q.direction_ing q.unroll_needed row f.name = some v ∧
    (statCheck C f v = true ↔ t.Holds ipOf q.direction_ing row ∨ ServerRange q row t)

theorem holds_port {ipOf : String → Nat} (hfield : t.field = .sport ∨ t.field = .dport) :
    t.Holds ipOf q.direction_ing row ↔
      t.HoldsNumber (row.number q.direction_ing t.field).val := by
  unfold WhereMatch.Holds
  rcases hfield with hfield | hfield <;> rw [hfield]

theorem checks_port {name : String} (ipOf : String → Nat)
    (hname : t.field = .sport ∧ name = "sport" ∨ t.field = .dport ∧ name = "dport")
    (haccepts : t.field.accepts t.op = true) (hright : ReadRight C q row t) :
    Checks C ipOf q row t
      { name := name, value := toString (readUint16 t.value).val, op := t.op } := by
  have hfield : t.field = .sport ∨ t.field = .dport := hname.imp And.left And.left
  have hknown := (readRight_port hfield hright).2
  refine ⟨_, flowAttr_port hname (hknown.imp id And.right), ?_⟩
  rw [statCheck_port (numeric_port hfield haccepts hright), holds_port hfield]
  refine or_congr_right ⟨fun hop => ⟨?_, hop⟩, And.right⟩
  -- only the server's port may have a range
  rcases hknown with hserver | ⟨hequal, -⟩
  · exact hserver
  · rw [hop] at hequal
    cases hequal

theorem checks_vrouter (ipOf : String → Nat) (hfield : t.field = .vrouter)
    (haccepts : t.field.accepts t.op = true) (hright : ReadRight C q row t)
    (h : leftover q.direction_ing t = some f) : Checks C ipOf q row t f := by
  obtain ⟨field, op, value, value2⟩ := t
  have hfield : field = .vrouter := hfield
  subst hfield
  obtain ⟨hne, hregex⟩ := hright
  have hnot : ¬ ServerRange q row ⟨.vrouter, op, value, value2⟩ := by
    rintro ⟨hserver, -⟩
    rcases serverField_cases q.direction_ing row with hport | hport
    all_goals
      rw [hport] at hserver
      cases hserver
  have hop : op = .EQUAL ∨ op = .PREFIX := by simpa [FlowField.accepts] using haccepts
  rcases hop with rfl | rfl
  · injection h with h
    subst h
    refine ⟨_, flowAttr_vrouter hne, ?_⟩
    rw [or_iff_left hnot]
    show decide (value = row.vrouter) = true ↔ row.vrouter = value
    rw [decide_eq_true_iff]
    exact eq_comm
  · injection h with h
    subst h
    refine ⟨_, flowAttr_vrouter hne, ?_⟩
    rw [or_iff_left hnot]
    exact hregex rfl

/-- The remote IP, whichever side of the flow it is. -/
theorem checks_remote_ip {name : String} (ipOf : String → Nat)
    (hname : q.direction_ing = .INGRESS ∧ t.field = .destip ∧ name = "destip" ∨
      q.direction_ing = .EGRESS ∧ t.field = .sourceip ∧ name = "sourceip")
    (hright : ReadRight C q row t) :
    Checks C ipOf q row t { name := name, value := t.value, op := t.op } := by
  obtain ⟨field, op, value, value2⟩ := t
  have hside : (field = .sourceip ∨ field = .destip) ∧
      ¬ (field = .sourceip ↔ q.direction_ing = .INGRESS) ∧
      row.text q.direction_ing field = row.remote_ip := by
    rcases hname with ⟨hdir, hfield, -⟩ | ⟨hdir, hfield, -⟩
    all_goals
      have hfield : field = _ := hfield
      rw [hdir, hfield]
      exact ⟨by decide, by decide, rfl⟩
  obtain ⟨hfield, hremote, htext⟩ := hside
  have hknown : op = .EQUAL ∧ RemoteKnown q row := by
    rcases hfield with rfl | rfl
    all_goals
      obtain ⟨hop, hside⟩ := hright
      rw [if_neg hremote] at hside
      exact ⟨hop, hside⟩
  obtain ⟨rfl, hunroll, htype⟩ := hknown
  refine ⟨.string row.remote_ip, flowAttr_remote_ip hunroll ?_, ?_⟩
  · rcases hname with ⟨hdir, -, hname⟩ | ⟨hdir, -, hname⟩
    · exact Or.inl ⟨hdir, hname⟩
    · refine Or.inr ⟨hdir, ?_, hname⟩
      cases hsession : row.session_type with
      | SERVER_SESSION => rfl
      | CLIENT_SESSION => exact absurd ⟨hdir, hsession⟩ htype
  · have hnot : ¬ ServerRange q row ⟨field, .EQUAL, value, value2⟩ := nofun
    have hholds : WhereMatch.Holds ipOf q.direction_ing row ⟨field, .EQUAL, value, value2⟩ ↔
        row.remote_ip = value := by
      rw [← htext]
      rcases hfield with rfl | rfl <;> rfl
    rw [or_iff_left hnot, hholds]
    show decide (value = row.remote_ip) = true ↔ _
    rw [decide_eq_true_iff]
    exact eq_comm

/-- A filter checks what its predicate says, if that is read right. -/
theorem checks_leftover (ipOf : String → Nat) (haccepts : t.field.accepts t.op = true)
    (hright : ReadRight C q row t) (h : leftover q.direction_ing t = some f) :
    Checks C ipOf q row t f := by
  cases hfield : t.field with
  | vrouter => exact checks_vrouter ipOf hfield haccepts hright h
  | sourceip =>
    simp only [leftover, hfield] at h
    split at h
    · next hdir =>
      rw [← Option.some.inj h]
      exact checks_remote_ip ipOf (Or.inr ⟨hdir, hfield, rfl⟩) hright
    · cases h
  | destip =>
    simp only [leftover, hfield] at h
    split at h
    · next hdir =>
      rw [← Option.some.inj h]
      exact checks_remote_ip ipOf (Or.inl ⟨hdir, hfield, rfl⟩) hright
    · cases h
  | sport =>
    simp only [leftover, hfield] at h
    rw [← Option.some.inj h]
    exact checks_port ipOf (Or.inl ⟨hfield, rfl⟩) haccepts hright
  | dport =>
    simp only [leftover, hfield] at h
    rw [← Option.some.inj h]
    exact checks_port ipOf (Or.inr ⟨hfield, rfl⟩) haccepts hright
  | _ =>
    simp only [leftover, hfield] at h
    cases h

end Leftovers

-- ---------------------------------------------------------------------------
-- The filters
-- ---------------------------------------------------------------------------

/-- The filters say of the row what the predicates that have one say, but for a range
of the server port. -/
theorem filters_keep_iff {q : FlowQuery} {row : SessionRow}
    (hright : ∀ t ∈ q.terms, ReadRight C q row t) (u : Nat) (timestamp : Fin (2 ^ 64))
    (ipOf : String → Nat) :
    (q.filter_list.length ≠ 0 → statKeeps C q.filter_list (q.attrs u timestamp row) = true) ↔
      ∀ t ∈ q.terms, ∀ f, leftover q.direction_ing t = some f →
        t.Holds ipOf q.direction_ing row ∨ ServerRange q row t := by
  obtain ⟨m, unit, hfound, hfilters, hselect, -⟩ := exists_unit q 0 row
  have hmem : ∀ f, f ∈ q.term.filter_and ↔ ∃ t ∈ q.terms, leftover q.direction_ing t = some f := by
    intro f
    rw [hfilters, hfound.filter_and_eq, List.mem_filterMap]
  -- the column of a filter is selected, so its value is there
  have hfind : ∀ f ∈ q.term.filter_and, (q.attrs u timestamp row : StatMap δ).find? f.name =
      flowAttr q.direction_ing q.unroll_needed row f.name := by
    intro f hf
    obtain ⟨t, -, ht⟩ := (hmem f).mp hf
    obtain ⟨hplain, hnames⟩ := plainColumn_leftover ht
    refine q.attrs_find? u timestamp row (q.has_column hplain ?_) hnames
    rw [hselect, hfound.additional_select_eq, ← hfound.filter_and_eq, ← hfilters]
    exact List.mem_map_of_mem hf
  have hchecks : ∀ t ∈ q.terms, ∀ f, leftover q.direction_ing t = some f →
      Checks C ipOf q row t f := fun t ht f hf =>
    checks_leftover ipOf (hfound.accepted t ht) (hright t ht) hf
  -- each filter is that of a predicate, and checks what it says
  have hall : statAnd C (q.attrs u timestamp row) q.term.filter_and = true ↔
      ∀ t ∈ q.terms, ∀ f, leftover q.direction_ing t = some f →
        t.Holds ipOf q.direction_ing row ∨ ServerRange q row t := by
    rw [statAnd_iff]
    · constructor
      · intro h t ht f hf
        obtain ⟨v, hv, hcheck⟩ := hchecks t ht f hf
        have hin := (hmem f).mpr ⟨t, ht, hf⟩
        exact hcheck.mp (h f hin v ((hfind f hin).trans hv))
      · intro h f hin v hv
        obtain ⟨t, ht, hf⟩ := (hmem f).mp hin
        obtain ⟨v', hv', hcheck⟩ := hchecks t ht f hf
        rw [hfind f hin, hv'] at hv
        rw [← Option.some.inj hv]
        exact hcheck.mpr (h t ht f hf)
    · intro f hin
      obtain ⟨t, ht, hf⟩ := (hmem f).mp hin
      obtain ⟨v, hv, -⟩ := hchecks t ht f hf
      rw [hfind f hin, hv]
      rfl
  -- an empty list of filters is no filter at all
  have hone : q.filter_list = if q.term.filter_and = [] then [] else [q.term.filter_and] := by
    unfold FlowQuery.filter_list filter_list_ postFilterList
    cases hfilter_and : q.term.filter_and <;> simp [hfilter_and]
  rw [← hall, hone]
  split
  · next hnil =>
    rw [hnil]
    exact ⟨fun _ => rfl, fun _ h => absurd rfl h⟩
  · show (1 ≠ 0 → (statAnd C _ _ || false) = true) ↔ _
    simp

-- ---------------------------------------------------------------------------
-- The WHERE clause is respected
-- ---------------------------------------------------------------------------

/-- If every predicate is read right, and no other on the same field follows one that no
filter checks, a row is admitted exactly when it satisfies the WHERE clause. -/
theorem flow_where_respected (C : Conversions δ) (ipOf : String → Nat) (q : FlowQuery)
    (T2 u : Nat) (timestamp : Fin (2 ^ 64)) (row : SessionRow)
    (hright : ∀ t ∈ q.terms, ReadRight C q row t)
    (hlast : ∀ t ∈ q.terms, Unfiltered q row t → lastOn t.field q.terms = some t) :
    q.Admits C T2 u timestamp row ↔ ∀ t ∈ q.terms, t.Holds ipOf q.direction_ing row := by
  obtain ⟨m, unit, hfound, -, -, ⟨query⟩, htype, hunit⟩ := exists_unit q T2 row
  unfold FlowQuery.Admits
  rw [hunit, filters_keep_iff hright u timestamp ipOf]
  constructor
  · rintro ⟨hselects, hfilters⟩ t ht
    have hunfiltered : Unfiltered q row t → t.Holds ipOf q.direction_ing row := fun hu =>
      holds_of_selects hfound hright query hselects ipOf
        ((hfound.matched_eq t.field).trans (hlast t ht hu)) hu
    cases hleft : leftover q.direction_ing t with
    | none => exact hunfiltered (unfiltered_of_leftover hleft)
    | some f =>
      rcases hfilters t ht f hleft with hholds | hrange
      · exact hholds
      · exact hunfiltered (Or.inr (Or.inr hrange))
  · intro h
    exact ⟨selects_of_holds hfound hright htype query T2 h, fun t ht f _ => Or.inl (h t ht)⟩

-- DNS traffic to one address.
def sampleTerms : List WhereMatch :=
  [{ field := .protocol, op := .EQUAL, value := "17" },
    { field := .dport, op := .IN_RANGE, value := "53", value2 := "60" },
    { field := .destip, op := .EQUAL, value := "8.8.8.8" },
    { field := .sourcevn, op := .PREFIX, value := "front" }]

def sampleQuery : FlowQuery where
  table := "FlowSeriesTable"
  direction_ing := .INGRESS
  select_fields := ["destip", "dport"]
  sort_fields := []
  terms := sampleTerms
  term := (orTerm .INGRESS sampleTerms).get (by decide +kernel)
  stats := (StatsSelect.build (fun _ => true) ["destip", "dport", "dport", "destip"] []).get
    (by decide +kernel)
  parsed := (Option.some_get _).symm
  built := ⟨fun _ => true, (Option.some_get _).symm⟩
  status := by decide +kernel

def sampleRow (session_type : SessionType) : SessionRow where
  session_type := session_type
  protocol := readUint16 "17"
  server_port := readUint16 "53"
  client_port := readUint16 "1000"
  local_ip := "10.0.0.1"
  remote_ip := "8.8.8.8"
  vn := "front-end"
  remote_vn := "internet"
  vrouter := "vr1"

/-- The flow of a server session has the client's port as its dport. No filter checks
a range, and the slice is on the server's. -/
theorem port_range_not_checked :
    sampleQuery.Admits sampleConversions 0 0 0 (sampleRow .SERVER_SESSION) ∧
      ∃ t ∈ sampleQuery.terms, t.field = .dport ∧
        ¬ t.Holds (fun _ => 0) sampleQuery.direction_ing (sampleRow .SERVER_SESSION) := by
  refine ⟨⟨?_, fun _ => rfl⟩, _, List.mem_cons_of_mem _ List.mem_cons_self, rfl, ?_⟩
  · refine ⟨_, List.mem_cons_of_mem _ List.mem_cons_self, rfl, ?_, ?_⟩
    · show inSlice ([17] ++ []) ([17] ++ [0xffff]) [17, 53]
      exact (inSlice_protocol_iff ..).mpr ⟨le_refl _, le_refl _⟩
    · intro info hinfo
      obtain rfl := List.mem_singleton.mp hinfo
      rfl
  · show ¬ ((IsDecimal "53" ∧ decimalValue "53" ≤ 1000) ∧ IsDecimal "60" ∧ 1000 ≤ decimalValue "60")
    have hbound : decimalValue "60" = 60 := rfl
    rw [hbound]
    omega

theorem flow_where_sample :
    sampleQuery.Admits sampleConversions 0 0 0 (sampleRow .CLIENT_SESSION) := by
  have hright : ∀ t ∈ sampleQuery.terms,
      ReadRight sampleConversions sampleQuery (sampleRow .CLIENT_SESSION) t := by
    intro t ht
    simp only [sampleQuery, sampleTerms, List.mem_cons, List.not_mem_nil, or_false] at ht
    rcases ht with rfl | rfl | rfl | rfl
    · exact ⟨by decide, by decide, fun h => by cases h⟩
    · refine ⟨⟨by decide, by decide, fun _ => by decide⟩, ?_⟩
      have hequal : ∀ t' ∈ sampleTerms, t'.field = .protocol → t'.op = .EQUAL := by decide
      exact fun _ t' ht' hfield => Or.inl (hequal t' ht' hfield)
    · exact ⟨rfl, rfl, fun h => absurd h.1 (by decide)⟩
    · show '%' ∉ "front".toList
      decide
  have hlast : ∀ t ∈ sampleQuery.terms, Unfiltered sampleQuery (sampleRow .CLIENT_SESSION) t →
      lastOn t.field sampleQuery.terms = some t := by
    show ∀ t ∈ sampleTerms, _ → lastOn t.field sampleTerms = some t
    have hall : ∀ t ∈ sampleTerms, lastOn t.field sampleTerms = some t := by decide
    exact fun t ht _ => hall t ht
  refine (flow_where_respected sampleConversions (fun _ => 0) sampleQuery 0 0 0
    (sampleRow .CLIENT_SESSION) hright hlast).mpr ?_
  intro t ht
  simp only [sampleQuery, sampleTerms, List.mem_cons, List.not_mem_nil, or_false] at ht
  rcases ht with rfl | rfl | rfl | rfl
  · exact ⟨by decide, rfl⟩
  · exact ⟨⟨by decide, by decide⟩, by decide, by decide⟩
  · rfl
  · show "front".toList <+: "front-end".toList
    decide

end TfAnalytics.QueryEngine.FlowWhere
