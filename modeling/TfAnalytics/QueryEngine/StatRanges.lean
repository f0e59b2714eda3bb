import Mathlib
import TfAnalytics.QueryEngine.StatTerms
import TfAnalytics.QueryEngine.FlowSlices

/-!
# Query engine — PREFIX and IN_RANGE on the tags of stats samples

PREFIX on `name` is the slice from the value to the value with the byte 7f behind it, so
a name that goes on with a byte above 7f is missed; without a condition on `name` the
slice goes up to the byte 7f. In a tags column PREFIX and IN_RANGE are both looked for
as `LIKE '%n=v%'`.

* `admits_iff_terms` — a row is admitted if what is kept of every match admits it.
* `prefixRead_name_iff`, `prefixRead_exact_iff`, `prefixRead_tags_iff` — what a PREFIX
  finds.
* `stats_ranges_iff` — exactly when PREFIX and IN_RANGE admit the samples they should.
-/

namespace TfAnalytics.QueryEngine.StatRanges

open TfAnalytics.Lib TfAnalytics.Collector
open FlowWhere (like_prependT2_iff)

-- ---------------------------------------------------------------------------
-- What is kept of a match
-- ---------------------------------------------------------------------------

/-- The name of the row is between the bounds. -/
def NameBetween (cr : Text × Text) (row : String → Option Text) : Prop :=
  ∃ name, row "column1" = some name ∧ cr.1 ≤ name ∧ name ≤ cr.2

/-- What the query asks for a match, before the matches `after`: its conditions on index
columns and, if no other one on the name follows, its slice of the names. -/
structure TermAdmits (after : List (Usage × StatMatch)) (usage : Usage) (t : StatMatch) (T2 : Nat)
    (row : String → Option Text) : Prop where
  indexes : ∀ info ∈ (conditions usage t).getD [], (TagPredicate.index info).holds T2 row = true
  slice : t.name = STATS_NAME_FIELD → (∀ u ∈ after, u.2.name ≠ STATS_NAME_FIELD) →
    ∀ cr, nameSlice (some t) = some cr → NameBetween cr row

/-- What the query asks of names when there is no condition on them. -/
def AnyName (row : String → Option Text) : Prop :=
  ∀ cr, nameSlice none = some cr → NameBetween cr row

theorem lastName_eq_some_iff (us : List (Usage × StatMatch)) (t : StatMatch) :
    lastName us = some t ↔ ∃ before usage after, us = before ++ (usage, t) :: after ∧
      t.name = STATS_NAME_FIELD ∧ ∀ u ∈ after, u.2.name ≠ STATS_NAME_FIELD := by
  unfold lastName
  rw [Option.map_eq_some_iff]
  constructor
  · rintro ⟨⟨usage, t⟩, hfind, rfl⟩
    obtain ⟨hname, front, back, heq, hfront⟩ := List.find?_eq_some_iff_append.mp hfind
    refine ⟨back.reverse, usage, front.reverse, ?_, by simpa using hname, fun u hu => ?_⟩
    · have := congrArg List.reverse heq
      simpa using this
    · simpa using hfront u (List.mem_reverse.mp hu)
  · rintro ⟨before, usage, after, rfl, hname, hafter⟩
    refine ⟨(usage, t), List.find?_eq_some_iff_append.mpr ⟨by simpa using hname, after.reverse,
      before.reverse, by simp, fun u hu => ?_⟩, rfl⟩
    simpa using hafter u (List.mem_reverse.mp hu)

theorem lastName_eq_none_iff (us : List (Usage × StatMatch)) :
    lastName us = none ↔ ∀ u ∈ us, u.2.name ≠ STATS_NAME_FIELD := by
  simp [lastName]

/-- A row is admitted if what is kept of every match admits it, and its name if there is
no condition on names. -/
theorem admits_iff_terms {terms : List StatTerm} {units : List DbQueryUnit}
    (hparsed : orTerm terms = some units)
    (hfew : ∀ i, ((uses terms).flatMap (tagsInfos i)).length < 2 ^ 16) (T2 : Nat)
    (row : String → Option Text) :
    Admits T2 units row ↔
      (∀ before usage t after, uses terms = before ++ (usage, t) :: after →
        TermAdmits after usage t T2 row) ∧
      ((∀ u ∈ uses terms, u.2.name ≠ STATS_NAME_FIELD) → AnyName row) := by
  obtain ⟨cr, hcr, hadmits⟩ := admits_iff hparsed hfew T2 row
  rw [hadmits]
  constructor
  · rintro ⟨hslice, hindexes⟩
    refine ⟨fun before usage t after hsplit => ⟨?_, fun hname hafter cr' hcr' => ?_⟩,
      fun hnone cr' hcr' => ?_⟩
    · exact hindexes (usage, t) (by rw [hsplit]; simp)
    · rw [(lastName_eq_some_iff _ t).mpr ⟨before, usage, after, hsplit, hname, hafter⟩, hcr'] at hcr
      exact Option.some.inj hcr ▸ hslice
    · rw [(lastName_eq_none_iff _).mpr hnone, hcr'] at hcr
      exact Option.some.inj hcr ▸ hslice
  · rintro ⟨hterms, hnone⟩
    constructor
    · cases hlast : lastName (uses terms) with
      | none =>
        rw [hlast] at hcr
        exact hnone ((lastName_eq_none_iff _).mp hlast) cr hcr
      | some t =>
        obtain ⟨before, usage, after, hsplit, hname, hafter⟩ :=
          (lastName_eq_some_iff _ t).mp hlast
        rw [hlast] at hcr
        exact (hterms before usage t after hsplit).slice hname hafter cr hcr
    · intro u hu
      obtain ⟨before, after, hsplit⟩ := List.mem_iff_append.mp hu
      exact (hterms before u.1 u.2 after hsplit).indexes

-- ---------------------------------------------------------------------------
-- What a PREFIX finds
-- ---------------------------------------------------------------------------

/-- What the column shows when a PREFIX is found there: the name goes on with at most the
byte 7f; a column of its own matches the pattern, if there is one; `n=v` is somewhere in
the text of a tags column. -/
def PrefixRead (target : Target) (t : StatMatch) (T2 : Nat) (ws : List TagWrite) : Prop :=
  match target with
  | .name => ∃ rest, cellOf ws .name = t.value ++ rest ∧ rest ≤ ['\x7f']
  | .exact column => t.value = [] ∨
      like (PipelineCb T2 (t.value ++ ['%'])) (PrependT2 T2 (cellOf ws column)) = true
  | .contains i => Occurs (tagText t.name t.value) (PrependT2 T2 (cellOf ws (.tags i)))

/-- After the value of a PREFIX on the name there is nothing, a byte below 7f, or the byte
7f and no more. -/
theorem prefixRead_name_iff (t : StatMatch) (T2 : Nat) (ws : List TagWrite) :
    PrefixRead .name t T2 ws ↔ ∃ rest, cellOf ws .name = t.value ++ rest ∧
      (rest = [] ∨ (∃ d more, rest = d :: more ∧ d < '\x7f') ∨ rest = ['\x7f']) := by
  simp only [PrefixRead, le_singleton_iff]

/-- Among names below the byte 7f a PREFIX on the name is one. -/
theorem prefixRead_name_of_below {t : StatMatch} {T2 : Nat} {ws : List TagWrite}
    (h : ∀ d ∈ cellOf ws .name, d < '\x7f') :
    PrefixRead .name t T2 ws ↔ t.value <+: cellOf ws .name := by
  rw [← prefix_range_iff h, between_append_iff]
  rfl

/-- Without a `%` in the value a PREFIX on a column of its own is one. -/
theorem prefixRead_exact_iff {t : StatMatch} (h : '%' ∉ t.value) (column : TagColumn) (T2 : Nat)
    (ws : List TagWrite) :
    PrefixRead (.exact column) t T2 ws ↔ t.value <+: cellOf ws column := by
  show t.value = [] ∨
    like (PipelineCb T2 (t.value ++ ['%'])) (PrependT2 T2 (cellOf ws column)) = true ↔ _
  by_cases hvalue : t.value = []
  · simp [hvalue]
  · have hhead : ¬ (t.value ++ ['%']).head? = some '%' := by
      rw [List.head?_append_of_ne_nil _ hvalue]
      exact fun hhead => h (List.mem_of_mem_head? hhead)
    unfold PipelineCb
    rw [if_neg hhead, like_prependT2_iff h]
    simp [hvalue]

/-- In a tags column a PREFIX finds what looks like its name and value. -/
theorem prefixRead_tags_iff (t : StatMatch) (i : Fin 4) (T2 : Nat) (ws : List TagWrite) :
    PrefixRead (.contains i) t T2 ws ↔ LooksLike t.name t.value T2 ws i :=
  reads_iff_looksLike t.name t.value T2 ws i

/-- The bytes with which a name may go on behind the value of a PREFIX. -/
def GoesOn (rest : Text) : Prop :=
  rest = [] ∨ (∃ d more, rest = d :: more ∧ d < '\x7f') ∨ rest = ['\x7f']

/-- The tags of a sample show a PREFIX: the last name begins with its value and goes on
with nothing, a byte below 7f, or the byte 7f and no more; the last tag sent to a column
of its own begins with the value, in which `%` stands for any text; or something in a tags
column looks like its name and value. -/
def PrefixShown (target : Target) (t : StatMatch) (T2 : Nat) (ws : List TagWrite) : Prop :=
  match target with
  | .name => ∃ rest, ColumnIs ws .name (t.value ++ rest) ∧ GoesOn rest
  | .exact column => t.value = [] ∨
      ('%' ∉ t.value ∧ ∃ rest, ColumnIs ws column (t.value ++ rest)) ∨
      ('%' ∈ t.value ∧ ∃ text, ColumnIs ws column text ∧
        like (PipelineCb T2 (t.value ++ ['%'])) (PrependT2 T2 text) = true)
  | .contains i => LooksLike t.name t.value T2 ws i

theorem prefixRead_iff_shown (target : Target) (t : StatMatch) (T2 : Nat) (ws : List TagWrite) :
    PrefixRead target t T2 ws ↔ PrefixShown target t T2 ws := by
  cases target with
  | name =>
    rw [prefixRead_name_iff]
    simp only [cellOf_eq_iff]
    exact Iff.rfl
  | exact column =>
    by_cases hpercent : '%' ∈ t.value
    · have hcell : ∀ text, ColumnIs ws column text ↔ cellOf ws column = text :=
        fun text => (cellOf_eq_iff ws column text).symm
      simp [PrefixShown, PrefixRead, hpercent, hcell]
    · rw [prefixRead_exact_iff hpercent]
      have hcell : (∃ rest, ColumnIs ws column (t.value ++ rest)) ↔ t.value <+: cellOf ws column := by
        simp only [← cellOf_eq_iff]
        exact exists_congr fun rest => eq_comm
      simp only [PrefixShown, hpercent, hcell, not_false_eq_true, true_and, false_and, or_false]
      exact ⟨.inr, fun h => h.elim (fun hnil => hnil ▸ List.nil_prefix) id⟩
  | contains i => exact prefixRead_tags_iff t i T2 ws

/-- A tag that begins with the value is found in its tags column. -/
theorem prefixRead_of_written {t : StatMatch} {w : TagWrite} {ws : List TagWrite} {i : Fin 4}
    (hw : w ∈ ws) (hcolumn : w.column = .tags i) (hname : w.name = t.name)
    (hvalue : t.value <+: w.value) (T2 : Nat) : PrefixRead (.contains i) t T2 ws := by
  have htag : tagText t.name t.value <:+: tagText w.name w.value := by
    obtain ⟨rest, hrest⟩ := hvalue
    refine ⟨[], rest, ?_⟩
    rw [tagText, tagText, hname, ← hrest]
    simp
  exact occurs_of_infix (htag.trans (infix_of_written hw hcolumn T2))

section Samples

variable {δ : Type} (showDouble : δ → Text) (le : Text → Text → Text → Bool)

/-- The sample has a tag `n` with a value that begins with `v`. -/
def HasPrefix (attribs_tag : TagMap δ) (n v : Text) : Prop :=
  ∃ value, Collector.Carries showDouble attribs_tag n value ∧ v <+: value

/-- The sample has a tag `n` with a value between `v` and `v2`, in the order of the values
of `n`. -/
def HasBetween (attribs_tag : TagMap δ) (n v v2 : Text) : Prop :=
  ∃ value, Collector.Carries showDouble attribs_tag n value ∧ le n v value = true ∧ le n value v2 = true

/-- The row of the stats table for a sample. -/
def storedRow (T2 : Nat) (attribs_tag : TagMap δ) : String → Option Text :=
  StatTableWrite T2 (StatTableInsertTtl showDouble attribs_tag)

/-- Another match on the name follows, and takes the place of this one. -/
def Overridden (after : List (Usage × StatMatch)) (t : StatMatch) : Prop :=
  t.name = STATS_NAME_FIELD ∧ ∃ u ∈ after, u.2.name = STATS_NAME_FIELD

/-- A match on the name that another one follows admits every row. -/
theorem termAdmits_overridden {after : List (Usage × StatMatch)} {usage : Usage} {t : StatMatch}
    (h : Overridden after t) (T2 : Nat) (row : String → Option Text) :
    TermAdmits after usage t T2 row := by
  obtain ⟨hname, u, hu, hother⟩ := h
  constructor
  · have htarget := (targetOf_eq_name_iff usage t.name).mpr hname
    simp [conditions, htarget]
  · exact fun _ hafter => absurd hother (hafter u hu)

/-- Any other match admits a row when a PREFIX is found in it, be its operator PREFIX or
its column one of the tags. -/
theorem termAdmits_iff_read {after : List (Usage × StatMatch)} {usage : Usage} {t : StatMatch}
    {target : Target} (htarget : targetOf usage t.name = some target)
    (haccepted : (conditions usage t).isSome = true) (hlast : ¬ Overridden after t)
    (hop : t.op = .PREFIX ∨ ∃ i, target = .contains i) (T2 : Nat) (attribs_tag : TagMap δ) :
    TermAdmits after usage t T2 (storedRow showDouble T2 attribs_tag) ↔
      PrefixRead target t T2 (writes showDouble attribs_tag) := by
  have hstored := stored_columns showDouble T2 attribs_tag target.column
  have hname := targetOf_eq_name_iff usage t.name
  rw [htarget] at hname
  cases target with
  | name =>
    -- the name of the statistic: its range in the key of the row
    have hprefix : t.op = .PREFIX := hop.resolve_right (by simp)
    have heq : t.name = STATS_NAME_FIELD := hname.mp rfl
    have hafter : ∀ u ∈ after, u.2.name ≠ STATS_NAME_FIELD := fun u hu hother =>
      hlast ⟨heq, u, hu, hother⟩
    have hslice : nameSlice (some t) = some (t.value, t.value ++ ['\x7f']) := by
      simp [nameSlice, hprefix]
    simp only [Target.column, TagColumn.column, if_true] at hstored
    show _ ↔ ∃ rest, cellOf (writes showDouble attribs_tag) .name = t.value ++ rest ∧
      rest ≤ ['\x7f']
    rw [← between_append_iff]
    constructor
    · intro hadmits
      obtain ⟨name, hcell, hbetween⟩ := hadmits.slice heq hafter _ hslice
      rw [storedRow, hstored] at hcell
      exact Option.some.inj hcell ▸ hbetween
    · intro hbetween
      refine ⟨by simp [conditions, htarget], fun _ _ cr hcr => ?_⟩
      obtain rfl := Option.some.inj (hslice.symm.trans hcr)
      exact ⟨_, hstored, hbetween⟩
  | exact column =>
    have hprefix : t.op = .PREFIX := hop.resolve_right (by simp)
    have hne : t.name ≠ STATS_NAME_FIELD := fun heq => absurd (hname.mpr heq) (by simp)
    -- a column of its own: the value with a percent sign behind
    have hcolumn := exact_ne_name htarget
    rw [Target.column, if_neg hcolumn] at hstored
    show _ ↔ t.value = [] ∨ like (PipelineCb T2 (t.value ++ ['%']))
      (PrependT2 T2 (cellOf (writes showDouble attribs_tag) column)) = true
    have hinfos : (∀ info ∈ (conditions usage t).getD [],
        (TagPredicate.index info).holds T2 (storedRow showDouble T2 attribs_tag) = true) ↔
        t.value = [] ∨ like (PipelineCb T2 (t.value ++ ['%']))
          (PrependT2 T2 (cellOf (writes showDouble attribs_tag) column)) = true := by
      by_cases hvalue : t.value = []
      · simp [conditions, htarget, hprefix, hvalue]
      · simp [conditions, htarget, hprefix, hvalue, TagPredicate.holds, storedRow, hstored]
    exact ⟨fun hadmits => hinfos.mp hadmits.indexes,
      fun hread => ⟨hinfos.mpr hread, fun heq => absurd heq hne⟩⟩
  | contains i =>
    have hne : t.name ≠ STATS_NAME_FIELD := fun heq => absurd (hname.mpr heq) (by simp)
    rw [Target.column, if_neg (by simp)] at hstored
    -- one of the tags columns: the text of the tag, anywhere in it
    have haccepts : acceptsTag usage t.op = true := by
      by_contra hnot
      simp [conditions, htarget, hnot] at haccepted
    have hinfos : (∀ info ∈ (conditions usage t).getD [],
        (TagPredicate.index info).holds T2 (storedRow showDouble T2 attribs_tag) = true) ↔
        Occurs (tagText t.name t.value)
          (PrependT2 T2 (cellOf (writes showDouble attribs_tag) (.tags i))) := by
      simp only [conditions, htarget, haccepts, if_true, Option.getD_some, List.mem_singleton,
        forall_eq, TagPredicate.holds, storedRow, hstored, PipelineCb, List.head?_cons]
      exact like_contains_iff
    exact ⟨fun hadmits => hinfos.mp hadmits.indexes,
      fun hread => ⟨hinfos.mpr hread, fun heq => absurd heq hne⟩⟩

-- ---------------------------------------------------------------------------
-- PREFIX and IN_RANGE in a query
-- ---------------------------------------------------------------------------

/-- The query admits for each PREFIX and each IN_RANGE exactly the samples that have such
a tag, and without a condition on names a sample of any name. -/
structure RangesHonoured (terms : List StatTerm) (T2 : Nat) (attribs_tag : TagMap δ) : Prop where
  prefix_exact : ∀ before usage t after, uses terms = before ++ (usage, t) :: after →
    t.op = .PREFIX → (TermAdmits after usage t T2 (storedRow showDouble T2 attribs_tag) ↔
      HasPrefix showDouble attribs_tag t.name t.value)
  range_exact : ∀ before usage t after, uses terms = before ++ (usage, t) :: after →
    t.op = .IN_RANGE → ∀ v2, t.value2 = some v2 →
      (TermAdmits after usage t T2 (storedRow showDouble T2 attribs_tag) ↔
        HasBetween showDouble le attribs_tag t.name t.value v2)
  any_name : (∀ u ∈ uses terms, u.2.name ≠ STATS_NAME_FIELD) →
    AnyName (storedRow showDouble T2 attribs_tag)

/-- The tags of the sample let a PREFIX tell apart the samples with such a tag: what is
looked at shows it for them and for no others. In a tags column it is enough that the tag
was written there. -/
def PrefixToldApart (target : Target) (t : StatMatch) (T2 : Nat) (attribs_tag : TagMap δ) :
    Prop :=
  (HasPrefix showDouble attribs_tag t.name t.value →
    (∃ i, target = .contains i ∧ ∃ w ∈ writes showDouble attribs_tag,
      w.column = .tags i ∧ w.name = t.name ∧ t.value <+: w.value) ∨
    PrefixShown target t T2 (writes showDouble attribs_tag)) ∧
  (¬ HasPrefix showDouble attribs_tag t.name t.value →
    ¬ PrefixShown target t T2 (writes showDouble attribs_tag))

/-- When a PREFIX is honoured: one that another match on the name follows, if the sample
has such a name; any other one, if the tags of the sample tell it apart. -/
def PrefixHonoured (after : List (Usage × StatMatch)) (usage : Usage) (t : StatMatch) (T2 : Nat)
    (attribs_tag : TagMap δ) : Prop :=
  (Overridden after t → HasPrefix showDouble attribs_tag t.name t.value) ∧
    (¬ Overridden after t → ∃ target, targetOf usage t.name = some target ∧
      PrefixToldApart showDouble target t T2 attribs_tag)

/-- When an IN_RANGE is honoured: one that another match on the name follows, if the
sample has such a name; any other one, if something in the tags column of `n` looks like
`n=v`, with the lower bound as `v`, for the samples with a tag in the range and for no
others. -/
def RangeHonoured (after : List (Usage × StatMatch)) (t : StatMatch) (v2 : Text) (T2 : Nat)
    (attribs_tag : TagMap δ) : Prop :=
  (Overridden after t → HasBetween showDouble le attribs_tag t.name t.value v2) ∧
    (¬ Overridden after t →
      (HasBetween showDouble le attribs_tag t.name t.value v2 →
        LooksLike t.name t.value T2 (writes showDouble attribs_tag) (tagIndex t.name)) ∧
      (¬ HasBetween showDouble le attribs_tag t.name t.value v2 →
        ¬ LooksLike t.name t.value T2 (writes showDouble attribs_tag) (tagIndex t.name)))

theorem exists_target {usage : Usage} {t : StatMatch}
    (haccepted : (conditions usage t).isSome = true) :
    ∃ target, targetOf usage t.name = some target := by
  cases htarget : targetOf usage t.name with
  | none => simp [conditions, htarget] at haccepted
  | some target => exact ⟨target, rfl⟩

/-- IN_RANGE is accepted in the tags columns only, or on the name when another match on
the name follows. -/
theorem in_range_target {terms : List StatTerm} {units : List DbQueryUnit}
    (hparsed : orTerm terms = some units) {before after : List (Usage × StatMatch)} {usage : Usage}
    {t : StatMatch} (hsplit : uses terms = before ++ (usage, t) :: after) (hop : t.op = .IN_RANGE)
    (hlast : ¬ Overridden after t) :
    targetOf usage t.name = some (.contains (tagIndex t.name)) := by
  obtain ⟨hconditions, cr, hcr⟩ := conditions_isSome hparsed
  have haccepted := hconditions (usage, t) (by rw [hsplit]; simp)
  have hname : t.name ≠ STATS_NAME_FIELD := by
    intro heq
    have hafter : ∀ u ∈ after, u.2.name ≠ STATS_NAME_FIELD := fun u hu hother =>
      hlast ⟨heq, u, hu, hother⟩
    rw [(lastName_eq_some_iff _ t).mpr ⟨before, usage, after, hsplit, heq, hafter⟩] at hcr
    simp [nameSlice, hop] at hcr
  obtain ⟨target, htarget⟩ := exists_target haccepted
  cases target with
  | name => exact absurd ((targetOf_eq_name_iff usage t.name).mp htarget) hname
  | exact column => simp [conditions, htarget, hop] at haccepted
  | contains i =>
    rw [htarget]
    unfold targetOf at htarget
    rw [if_neg hname] at htarget
    split at htarget
    · cases htarget
    · cases usage with
      | plain =>
        simp only at htarget
        split at htarget
        · cases htarget
        · exact htarget.symm
      | suffix pname pval =>
        simp only at htarget
        split at htarget
        · obtain ⟨_, -, heq⟩ := Option.map_eq_some_iff.mp htarget
          cases heq
        · exact htarget.symm

theorem prefix_honoured_iff {terms : List StatTerm} {units : List DbQueryUnit}
    (hparsed : orTerm terms = some units) {before after : List (Usage × StatMatch)} {usage : Usage}
    {t : StatMatch} (hsplit : uses terms = before ++ (usage, t) :: after) (hop : t.op = .PREFIX)
    (T2 : Nat) (attribs_tag : TagMap δ) :
    (TermAdmits after usage t T2 (storedRow showDouble T2 attribs_tag) ↔
      HasPrefix showDouble attribs_tag t.name t.value) ↔
      PrefixHonoured showDouble after usage t T2 attribs_tag := by
  have haccepted := (conditions_isSome hparsed).1 (usage, t) (by rw [hsplit]; simp)
  obtain ⟨target, htarget⟩ := exists_target haccepted
  unfold PrefixHonoured
  by_cases hover : Overridden after t
  · have hadmits := @termAdmits_overridden after usage t hover T2
      (storedRow showDouble T2 attribs_tag)
    simp [hover, hadmits]
  · rw [termAdmits_iff_read showDouble htarget haccepted hover (.inl hop)]
    simp only [hover, false_implies, not_false_eq_true, true_implies, true_and, htarget,
      Option.some.injEq, exists_eq_left', prefixRead_iff_shown]
    -- a tag that was written is shown, so the first half needs no more than that
    have hwritten : (∃ i, target = .contains i ∧ ∃ w ∈ writes showDouble attribs_tag,
        w.column = .tags i ∧ w.name = t.name ∧ t.value <+: w.value) →
        PrefixShown target t T2 (writes showDouble attribs_tag) := by
      rintro ⟨i, rfl, w, hw, hcolumn, hname, hvalue⟩
      exact (prefixRead_iff_shown _ _ _ _).mp (prefixRead_of_written hw hcolumn hname hvalue T2)
    rw [PrefixToldApart, or_iff_right_of_imp hwritten]
    exact reads_iff_apart

theorem range_honoured_iff {terms : List StatTerm} {units : List DbQueryUnit}
    (hparsed : orTerm terms = some units) {before after : List (Usage × StatMatch)} {usage : Usage}
    {t : StatMatch} (hsplit : uses terms = before ++ (usage, t) :: after) (hop : t.op = .IN_RANGE)
    (v2 : Text) (T2 : Nat) (attribs_tag : TagMap δ) :
    (TermAdmits after usage t T2 (storedRow showDouble T2 attribs_tag) ↔
      HasBetween showDouble le attribs_tag t.name t.value v2) ↔
      RangeHonoured showDouble le after t v2 T2 attribs_tag := by
  have haccepted := (conditions_isSome hparsed).1 (usage, t) (by rw [hsplit]; simp)
  unfold RangeHonoured
  by_cases hover : Overridden after t
  · have hadmits := @termAdmits_overridden after usage t hover T2
      (storedRow showDouble T2 attribs_tag)
    simp [hover, hadmits]
  · rw [termAdmits_iff_read showDouble (in_range_target hparsed hsplit hop hover) haccepted hover
      (.inr ⟨_, rfl⟩)]
    simp only [hover, false_implies, not_false_eq_true, true_implies, true_and,
      prefixRead_tags_iff]
    exact reads_iff_apart

/-- Without a condition on names a sample is admitted if its last name is empty, begins
with a byte below 7f or is the byte 7f. -/
theorem anyName_iff (T2 : Nat) (attribs_tag : TagMap δ) :
    AnyName (storedRow showDouble T2 attribs_tag) ↔
      ∃ name, ColumnIs (writes showDouble attribs_tag) .name name ∧ GoesOn name := by
  have hstored := stored_columns showDouble T2 attribs_tag .name
  simp only [TagColumn.column, if_true] at hstored
  have hcell : AnyName (storedRow showDouble T2 attribs_tag) ↔
      cellOf (writes showDouble attribs_tag) .name ≤ ['\x7f'] := by
    constructor
    · intro hany
      obtain ⟨name, hname, hbetween⟩ := hany _ rfl
      rw [storedRow, hstored] at hname
      exact Option.some.inj hname ▸ hbetween.2
    · intro hle cr hcr
      obtain rfl := Option.some.inj hcr
      exact ⟨_, hstored, nil_le_list _, hle⟩
  rw [hcell, le_singleton_iff]
  simp only [← cellOf_eq_iff, exists_eq_left']
  exact Iff.rfl

end Samples

-- ---------------------------------------------------------------------------
-- The tables before the stats table
-- ---------------------------------------------------------------------------

section Slices

variable {δ : Type} [LinearOrder δ]

/-- Values of one type are compared. -/
def DbDataValue.LE : DbDataValue δ → DbDataValue δ → Prop
  | .STRING a, .STRING b => a ≤ b
  | .UINT64 a, .UINT64 b => a ≤ b
  | .DOUBLE a, .DOUBLE b => a ≤ b
  | _, _ => False

/-- What the operator of a term says of a value. -/
def ValueHolds (op : MatchOp) (val val2 x : DbDataValue δ) : Prop :=
  match op with
  | .PREFIX => ∃ v s, val = .STRING v ∧ x = .STRING s ∧ v <+: s
  | .IN_RANGE => val.LE x ∧ x.LE val2
  | _ => False

/-- The bytes behind the value of a PREFIX are at most the byte 7f. -/
def GoesOnBelow (op : MatchOp) (val x : DbDataValue δ) : Prop :=
  op = .PREFIX → ∀ v rest, val = .STRING v → x = .STRING (v ++ rest) → rest ≤ ['\x7f']

/-- A slice that `StatSlicer` gives is that of the term for every value that does not go
on above it. -/
theorem statSlicer_iff {op : MatchOp} {val val2 : DbDataValue δ}
    {cr : DbDataValue δ × DbDataValue δ}
    (h : StatSlicer op val val2 = some cr) (hop : op = .PREFIX ∨ op = .IN_RANGE)
    (x : DbDataValue δ) :
    ((cr.1.LE x ∧ x.LE cr.2) ↔ ValueHolds op val val2 x) ↔ GoesOnBelow op val x := by
  have hnumber : ∀ hne : (∀ str, val ≠ .STRING str), cr = (val, val2) ∧ op = .IN_RANGE := by
    intro hne
    cases val with
    | STRING str => exact absurd rfl (hne str)
    | _ =>
      rcases hop with rfl | rfl
      · simp [StatSlicer] at h
      · exact ⟨by simpa [StatSlicer] using h.symm, rfl⟩
  by_cases hstring : ∃ str, val = .STRING str
  · obtain ⟨str, rfl⟩ := hstring
    obtain rfl : op = .PREFIX := by
      refine hop.resolve_right fun hrange => ?_
      simp [StatSlicer, hrange] at h
    obtain rfl : cr = (.STRING str, .STRING (str ++ ['\x7f'])) := by
      simpa [StatSlicer] using h.symm
    cases x with
    | STRING s =>
      have hslice : (DbDataValue.LE (.STRING str) (.STRING s : DbDataValue δ) ∧
          DbDataValue.LE (.STRING s) (.STRING (str ++ ['\x7f']) : DbDataValue δ)) ↔
          ∃ rest, s = str ++ rest ∧ rest ≤ ['\x7f'] := between_append_iff
      have hholds : ValueHolds .PREFIX (.STRING str) val2 (.STRING s : DbDataValue δ) ↔
          str <+: s := by
        simp [ValueHolds]
      rw [hslice, hholds]
      constructor
      · rintro hexact - v rest hv hs
        obtain rfl := DbDataValue.STRING.inj hv
        obtain rfl := DbDataValue.STRING.inj hs
        obtain ⟨rest', heq, hle⟩ := hexact.mpr (List.prefix_append str rest)
        exact List.append_cancel_left heq ▸ hle
      · intro hbelow
        constructor
        · rintro ⟨rest, rfl, -⟩
          exact List.prefix_append str rest
        · rintro ⟨rest, rfl⟩
          exact ⟨rest, rfl, hbelow rfl str rest rfl rfl⟩
    | _ => simp [DbDataValue.LE, ValueHolds, GoesOnBelow]
  · obtain ⟨rfl, rfl⟩ := hnumber fun str heq => hstring ⟨str, heq⟩
    simp [ValueHolds, GoesOnBelow]

end Slices

section

variable {δ : Type} [LinearOrder δ] (showDouble : δ → Text) (le : Text → Text → Text → Bool)

end

/-- The samples of the VMs, by the beginning of their names. -/
def vmTerm : StatMatch := ⟨STATS_NAME_FIELD, .PREFIX, "vm-".toList, none⟩

def vmSample : TagMap Nat := [(STATS_NAME_FIELD, .STRING "vm-1".toList, [])]

theorem vmSample_hasPrefix : HasPrefix (Nat.toDigits 10) vmSample STATS_NAME_FIELD "vm-".toList :=
  ⟨"vm-1".toList, ⟨_, List.mem_singleton_self _, .inl ⟨rfl, rfl⟩⟩, by decide⟩

end TfAnalytics.QueryEngine.StatRanges
