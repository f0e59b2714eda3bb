import TfAnalytics.QueryEngine.SessionWhere

/-!
# Query engine — several predicates on one text of a session

EQUAL and PREFIX predicates on one field, as their values decide it: whether some text
is compared with success, whether one satisfies them, and whether these are the same texts.

* `noTextCompared_iff`, `noTextAsked_iff` — when there is no such text.
* `textExact_values_iff` — when the texts are the same.
* `noRowCompared_values_iff`, `noRowAsked_values_iff` — when no row is found, or asked for.
-/

namespace TfAnalytics.QueryEngine.SessionWhere

open TfAnalytics.Lib TfAnalytics.Collector
open FlowWhere (like_prependT2_iff)

-- ---------------------------------------------------------------------------
-- One prefix
-- ---------------------------------------------------------------------------

/-- What a value asks before its first `%`. -/
def head (value : Text) : Text := value.takeWhile (· ≠ '%')

theorem not_percent_mem_head (value : Text) : '%' ∉ head value := by
  intro hmem
  have := List.mem_takeWhile_imp hmem
  simp at this

theorem head_eq_self {value : Text} (h : '%' ∉ value) : head value = value := by
  exact List.takeWhile_eq_self_iff.mpr fun c hc => decide_eq_true fun heq => h (heq ▸ hc)

theorem head_append_percent {pre : Text} (h : '%' ∉ pre) (rest : Text) :
    head (pre ++ '%' :: rest) = pre := by
  have hne : ∀ c ∈ pre, decide (c ≠ '%') = true := fun c hc =>
    decide_eq_true fun heq => h (heq ▸ hc)
  unfold head
  rw [List.takeWhile_append_of_pos hne]
  simp

theorem prependT2_append (T2 : Nat) (a b : Text) :
    PrependT2 T2 (a ++ b) = PrependT2 T2 a ++ b := by
  unfold PrependT2
  rw [List.append_assoc, List.cons_append]

theorem filter_prependT2 (T2 : Nat) (text : Text) :
    (PrependT2 T2 text).filter (· ≠ '%') = PrependT2 T2 (text.filter (· ≠ '%')) := by
  have hdigits : (Nat.toDigits 10 T2).filter (· ≠ '%') = Nat.toDigits 10 T2 := by
    refine List.filter_eq_self.mpr fun c hc => decide_eq_true ?_
    rintro rfl
    exact not_mem_digits (by decide) T2 hc
  unfold PrependT2
  rw [List.filter_append, List.filter_cons_of_pos (by decide), hdigits]

section Prefixes

variable {t : SessionMatch} {T2 : Nat} (hop : t.op = .PREFIX)
include hop

theorem compares_prefix_iff (text : Text) : t.Compares T2 text ↔
    t.value = "" ∨ like (PipelineCb T2 (t.value.toList ++ ['%'])) (PrependT2 T2 text) = true := by
  unfold SessionMatch.Compares
  rw [if_pos hop]

/-- The text begins with what is before the first `%`. -/
theorem head_prefix_of_compares {text : Text} (h : t.Compares T2 text) :
    head t.value.toList <+: text := by
  rcases (compares_prefix_iff hop text).mp h with hempty | hlike
  · rw [hempty]
    exact List.nil_prefix
  · by_cases hhead : (t.value.toList ++ ['%']).head? = some '%'
    · have hnil : head t.value.toList = [] := by
        unfold head
        cases hvalue : t.value.toList with
        | nil => rfl
        | cons c rest =>
          rw [hvalue, List.cons_append, List.head?_cons, Option.some.injEq] at hhead
          rw [hhead]
          rfl
      rw [hnil]
      exact List.nil_prefix
    · have hsplit : PipelineCb T2 (t.value.toList ++ ['%']) =
          PrependT2 T2 (head t.value.toList) ++
            (t.value.toList.dropWhile (· ≠ '%') ++ ['%']) := by
        unfold PipelineCb head
        rw [if_neg hhead, ← prependT2_append, ← List.append_assoc, List.takeWhile_append_dropWhile]
      have hpercent : '%' ∉ PrependT2 T2 (head t.value.toList) := by
        unfold PrependT2
        rw [List.mem_append, List.mem_cons]
        rintro (hdigit | heq | hmem)
        · exact not_mem_digits (by decide) T2 hdigit
        · cases heq
        · exact not_percent_mem_head _ hmem
      rw [hsplit] at hlike
      have hstart := prefix_of_like hpercent hlike
      unfold PrependT2 at hstart
      rw [List.prefix_append_right_inj, List.cons_prefix_cons] at hstart
      exact hstart.2

theorem compares_filter {text : Text} (h : t.Compares T2 text) :
    t.Compares T2 (text.filter (· ≠ '%')) := by
  rw [compares_prefix_iff hop] at h ⊢
  refine h.imp_right fun hlike => ?_
  rw [← filter_prependT2]
  exact like_filter hlike

/-- A text that begins as the value does and has the rest of it somewhere is compared
with success. -/
theorem compares_of_head {before after : Text} (h : head t.value.toList <+: before) :
    t.Compares T2 (before ++ t.value.toList.filter (· ≠ '%') ++ after) := by
  rw [compares_prefix_iff hop]
  by_cases hmem : '%' ∈ t.value.toList
  · refine .inr ?_
    obtain ⟨pre, rest, hvalue, hpre⟩ := List.eq_append_cons_of_mem hmem
    rw [hvalue, head_append_percent hpre] at h
    obtain ⟨between, rfl⟩ := h
    have hfilter : (pre ++ '%' :: rest).filter (· ≠ '%') = pre ++ rest.filter (· ≠ '%') := by
      rw [List.filter_append, List.filter_cons_of_neg (by decide)]
      have hne : ∀ c ∈ pre, decide (c ≠ '%') = true := fun c hc =>
        decide_eq_true fun heq => hpre (heq ▸ hc)
      rw [List.filter_eq_self.mpr hne]
    -- the `%` takes what is in between
    have hlast : ∀ x : Text,
        like ('%' :: (rest ++ ['%'])) (x ++ (rest.filter (· ≠ '%') ++ after)) = true :=
      fun x => like_percent_iff.mpr ⟨x, _, rfl, like_append_percent_iff.mpr
        ⟨_, after, rfl, like_filter_percent rest⟩⟩
    have htext : pre ++ between ++ (pre ++ rest.filter (· ≠ '%')) ++ after =
        pre ++ (between ++ pre ++ (rest.filter (· ≠ '%') ++ after)) := by
      simp only [List.append_assoc]
    rw [hvalue, hfilter, htext]
    cases pre with
    | nil =>
      have hcell : PrependT2 T2 ([] ++ (between ++ [] ++ (rest.filter (· ≠ '%') ++ after))) =
          PrependT2 T2 between ++ (rest.filter (· ≠ '%') ++ after) := by
        rw [List.nil_append, List.append_nil, prependT2_append]
      rw [hcell]
      exact hlast _
    | cons c pre =>
      have hhead : ¬ (c :: pre ++ '%' :: rest ++ ['%']).head? = some '%' := by
        intro heq
        exact hpre (by simpa using Or.inl (Option.some.inj heq).symm)
      rw [PipelineCb, if_neg hhead, List.append_assoc (c :: pre), prependT2_append,
        prependT2_append]
      exact like_append (like_self _) (hlast _)
  · rw [head_eq_self hmem] at h
    by_cases hempty : t.value = ""
    · exact .inl hempty
    refine .inr ?_
    have hne : t.value.toList ≠ [] := by simpa using hempty
    have hhead : ¬ (t.value.toList ++ ['%']).head? = some '%' := by
      rw [List.head?_append_of_ne_nil _ hne]
      exact fun hhead => hmem (List.mem_of_mem_head? hhead)
    rw [PipelineCb, if_neg hhead, like_prependT2_iff hmem, List.append_assoc]
    exact h.trans (List.prefix_append _ _)

/-- A text that begins with the value is compared with success, `%` or not. -/
theorem compares_of_prefix {text : Text} (h : t.value.toList <+: text) : t.Compares T2 text := by
  rw [compares_prefix_iff hop]
  obtain ⟨after, rfl⟩ := h
  refine .inr ?_
  by_cases hhead : (t.value.toList ++ ['%']).head? = some '%'
  · rw [PipelineCb, if_pos hhead]
    generalize t.value.toList = value at hhead
    cases value with
    | nil => exact like_percent_iff.mpr ⟨_, [], (List.append_nil _).symm, rfl⟩
    | cons c rest =>
      obtain rfl : c = '%' := by simpa using hhead
      have hcell : PrependT2 T2 ('%' :: rest ++ after) = PrependT2 T2 ['%'] ++ (rest ++ after) := by
        rw [← prependT2_append]
        rfl
      rw [hcell]
      exact like_percent_iff.mpr ⟨_, _, rfl,
        like_append_percent_iff.mpr ⟨rest, after, rfl, like_self rest⟩⟩
  · rw [PipelineCb, if_neg hhead, prependT2_append, prependT2_append]
    exact like_append_percent_iff.mpr ⟨_, after, rfl, like_self _⟩

theorem holdsText_prefix_iff (regex_match le : Text → Text → Bool) (text : Text) :
    t.HoldsText regex_match le text ↔ t.value.toList <+: text := by
  unfold SessionMatch.HoldsText
  rw [hop]

end Prefixes

-- ---------------------------------------------------------------------------
-- Several predicates
-- ---------------------------------------------------------------------------

section Equal

variable {t : SessionMatch} {T2 : Nat} (hop : t.op = .EQUAL)
include hop

theorem compares_equal_iff (text : Text) : t.Compares T2 text ↔
    t.value.toList = ['%'] ∨ t.value.toList.head? ≠ some '%' ∧ text = t.value.toList := by
  unfold SessionMatch.Compares
  rw [if_neg (by rw [hop]; decide)]

theorem holdsText_equal_iff (regex_match le : Text → Text → Bool) (text : Text) :
    t.HoldsText regex_match le text ↔ text = t.value.toList := by
  unfold SessionMatch.HoldsText
  rw [hop]

end Equal

/-- The value is read as it is: no `%` in a prefix, none at the beginning of a text that
is asked for. -/
def SessionMatch.PlainValue (t : SessionMatch) : Prop :=
  if t.op = .PREFIX then '%' ∉ t.value.toList else t.value.toList.head? ≠ some '%'

/-- Neither begins with the other. -/
def Apart (a b : Text) : Prop := ¬ a <+: b ∧ ¬ b <+: a

/-- No text is compared with success: a text that is asked for begins with `%` (and is not
`%` alone, which asks nothing) or is not compared with success itself, or two prefixes are
apart before their first `%`. -/
def NoneCompared (T2 : Nat) (ts : List SessionMatch) : Prop :=
  (∃ t ∈ ts, t.op = .EQUAL ∧ t.value.toList ≠ ['%'] ∧
    (t.value.toList.head? = some '%' ∨ ∃ t' ∈ ts, ¬ t'.Compares T2 t.value.toList)) ∨
  ∃ t ∈ ts, ∃ t' ∈ ts, t.op = .PREFIX ∧ t'.op = .PREFIX ∧
    Apart (head t.value.toList) (head t'.value.toList)

/-- No text satisfies the predicates: a text that is asked for does not, or two prefixes
are apart. -/
def NoneAsked (regex_match le : Text → Text → Bool) (ts : List SessionMatch) : Prop :=
  (∃ t ∈ ts, t.op = .EQUAL ∧ ∃ t' ∈ ts, ¬ t'.HoldsText regex_match le t.value.toList) ∨
  ∃ t ∈ ts, ∃ t' ∈ ts, t.op = .PREFIX ∧ t'.op = .PREFIX ∧ Apart t.value.toList t'.value.toList

/-- Texts of which no two are apart are beginnings of one text. -/
theorem exists_prefix_all {l : List Text} (h : ∀ a ∈ l, ∀ b ∈ l, ¬ Apart a b) :
    ∃ text ∈ [] :: l, ∀ a ∈ l, a <+: text := by
  induction l with
  | nil => exact ⟨[], List.mem_cons_self, fun a ha => by cases ha⟩
  | cons a l ih =>
    obtain ⟨text, htext, hall⟩ := ih fun b hb c hc =>
      h b (List.mem_cons_of_mem _ hb) c (List.mem_cons_of_mem _ hc)
    have hcomparable : a <+: text ∨ text <+: a := by
      rcases List.mem_cons.mp htext with rfl | htext
      · exact .inr List.nil_prefix
      · by_contra hnot
        exact h a List.mem_cons_self text (List.mem_cons_of_mem _ htext) (not_or.mp hnot)
    rcases hcomparable with hle | hge
    · refine ⟨text, ?_, List.forall_mem_cons.mpr ⟨hle, hall⟩⟩
      exact (List.mem_cons.mp htext).elim (fun heq => heq ▸ List.mem_cons_self)
        fun hmem => List.mem_cons_of_mem _ (List.mem_cons_of_mem _ hmem)
    · exact ⟨a, List.mem_cons_of_mem _ List.mem_cons_self,
        List.forall_mem_cons.mpr ⟨List.prefix_refl a, fun b hb => (hall b hb).trans hge⟩⟩

section Several

variable {regex_match le : Text → Text → Bool} {T2 : Nat} {ts : List SessionMatch}
  (hops : ∀ t ∈ ts, t.op = .EQUAL ∨ t.op = .PREFIX)
include hops

theorem noTextCompared_iff :
    (∀ text, ¬ ∀ t ∈ ts, t.Compares T2 text) ↔ NoneCompared T2 ts := by
  constructor
  · intro hnone
    by_contra hnot
    obtain ⟨hequal, hprefix⟩ := not_or.mp hnot
    by_cases hone : ∃ t ∈ ts, t.op = .EQUAL ∧ t.value.toList ≠ ['%']
    · obtain ⟨t, ht, hop, hne⟩ := hone
      refine hnone t.value.toList fun t' ht' => ?_
      by_contra hcompares
      exact hequal ⟨t, ht, hop, hne, .inr ⟨t', ht', hcompares⟩⟩
    · -- the longest head, and then all that the prefixes ask for
      obtain ⟨longest, -, hlongest⟩ := exists_prefix_all
        (l := (ts.filter fun t => t.op = .PREFIX).map fun t => head t.value.toList) (by
          intro a ha b hb hapart
          obtain ⟨t, ht, rfl⟩ := List.mem_map.mp ha
          obtain ⟨t', ht', rfl⟩ := List.mem_map.mp hb
          obtain ⟨ht, hop⟩ := List.mem_filter.mp ht
          obtain ⟨ht', hop'⟩ := List.mem_filter.mp ht'
          exact hprefix ⟨t, ht, t', ht', of_decide_eq_true hop, of_decide_eq_true hop', hapart⟩)
      refine hnone (longest ++ (ts.map fun t => t.value.toList.filter (· ≠ '%')).flatten)
        fun t ht => ?_
      rcases hops t ht with hop | hop
      · rw [compares_equal_iff hop]
        by_contra hvalue
        exact hone ⟨t, ht, hop, (not_or.mp hvalue).1⟩
      · obtain ⟨pre, post, hsplit⟩ := List.append_of_mem ht
        have hhead : head t.value.toList <+: longest :=
          hlongest _ (List.mem_map_of_mem (List.mem_filter.mpr ⟨ht, decide_eq_true hop⟩))
        rw [hsplit, List.map_append, List.map_cons, List.flatten_append, List.flatten_cons,
          ← List.append_assoc, ← List.append_assoc]
        exact compares_of_head hop (hhead.trans (List.prefix_append _ _))
  · rintro (⟨t, ht, hop, hne, hother⟩ | ⟨t, ht, t', ht', hop, hop', hapart⟩) text hall
    · have htext := ((compares_equal_iff hop text).mp (hall t ht)).resolve_left hne
      rcases hother with hhead | ⟨t', ht', hnot⟩
      · exact htext.1 hhead
      · exact hnot (htext.2 ▸ hall t' ht')
    · have hhead := head_prefix_of_compares hop (hall t ht)
      have hhead' := head_prefix_of_compares hop' (hall t' ht')
      exact (List.prefix_or_prefix_of_prefix hhead hhead').elim hapart.1 hapart.2

theorem noTextAsked_iff :
    (∀ text, ¬ ∀ t ∈ ts, t.HoldsText regex_match le text) ↔ NoneAsked regex_match le ts := by
  constructor
  · intro hnone
    by_contra hnot
    obtain ⟨hequal, hprefix⟩ := not_or.mp hnot
    by_cases hone : ∃ t ∈ ts, t.op = .EQUAL
    · obtain ⟨t, ht, hop⟩ := hone
      refine hnone t.value.toList fun t' ht' => ?_
      by_contra hholds
      exact hequal ⟨t, ht, hop, t', ht', hholds⟩
    · have hall : ∀ t ∈ ts, t.op = .PREFIX := fun t ht =>
        (hops t ht).resolve_left fun hop => hone ⟨t, ht, hop⟩
      obtain ⟨longest, -, hlongest⟩ := exists_prefix_all
        (l := ts.map fun t => t.value.toList) (by
          intro a ha b hb hapart
          obtain ⟨t, ht, rfl⟩ := List.mem_map.mp ha
          obtain ⟨t', ht', rfl⟩ := List.mem_map.mp hb
          exact hprefix ⟨t, ht, t', ht', hall t ht, hall t' ht', hapart⟩)
      refine hnone longest fun t ht => ?_
      rw [holdsText_prefix_iff (hall t ht)]
      exact hlongest _ (List.mem_map_of_mem ht)
  · rintro (⟨t, ht, hop, t', ht', hnot⟩ | ⟨t, ht, t', ht', hop, hop', hapart⟩) text hall
    · rw [← (holdsText_equal_iff hop ..).mp (hall t ht)] at hnot
      exact hnot (hall t' ht')
    · have hvalue := (holdsText_prefix_iff hop ..).mp (hall t ht)
      have hvalue' := (holdsText_prefix_iff hop' ..).mp (hall t' ht')
      exact (List.prefix_or_prefix_of_prefix hvalue hvalue').elim hapart.1 hapart.2

theorem comparedExactly_iff_plainValue {t : SessionMatch} (ht : t ∈ ts) :
    t.ComparedExactly regex_match le ↔ t.PlainValue := by
  unfold SessionMatch.ComparedExactly SessionMatch.PlainValue
  rcases hops t ht with hop | hop
  · have hne : ¬ t.op = .PREFIX := by rw [hop]; decide
    rw [if_neg hne, if_neg hne]
    simp only [holdsText_equal_iff hop]
    by_cases hvalue : t.value.toList = ['%']
    · rw [if_pos hvalue, hvalue]
      exact ⟨fun h => absurd (h []) (by simp), fun h => absurd rfl h⟩
    rw [if_neg hvalue]
    by_cases hhead : t.value.toList.head? = some '%'
    · rw [if_pos hhead]
      exact ⟨fun h => absurd rfl (h _), fun h => absurd hhead h⟩
    · rw [if_neg hhead]
      exact ⟨fun _ => hhead, fun _ _ => trivial⟩
  · rw [if_pos hop, if_pos hop]

omit hops in
/-- Several predicates or one: the texts compared with success are the texts asked for. -/
theorem textExact_iff_same : TextExact regex_match T2 le ts ↔
    ∀ text, (∀ t ∈ ts, t.Compares T2 text) ↔ ∀ t ∈ ts, t.HoldsText regex_match le text := by
  match ts with
  | [] => simp [TextExact]
  | [t] =>
    simp only [List.mem_singleton, forall_eq, TextExact]
    exact (comparedExactly_iff t regex_match le T2).symm
  | _ :: _ :: _ => exact Iff.rfl

/-- The predicates on a text are compared as they say if and only if every value is read
as it is, or a text that is asked for satisfies them all, or there is no text on either
side. -/
theorem textExact_values_iff : TextExact regex_match T2 le ts ↔
    (∀ t ∈ ts, t.PlainValue) ∨
    (∃ t ∈ ts, t.op = .EQUAL ∧ t.PlainValue ∧
      ∀ t' ∈ ts, t'.HoldsText regex_match le t.value.toList) ∨
    (NoneCompared T2 ts ∧ NoneAsked regex_match le ts) := by
  rw [textExact_iff_same, ← noTextCompared_iff hops, ← noTextAsked_iff hops]
  have hplainEqual : ∀ {t : SessionMatch}, t.op = .EQUAL → (t.PlainValue ↔
      t.value.toList.head? ≠ some '%') := by
    intro t hop
    unfold SessionMatch.PlainValue
    rw [if_neg (by rw [hop]; decide)]
  constructor
  · intro hsame
    by_cases hnone : ∀ text, ¬ ∀ t ∈ ts, t.Compares T2 text
    · exact .inr (.inr ⟨hnone, fun text hall => hnone text ((hsame text).mpr hall)⟩)
    obtain ⟨text, hall⟩ := not_forall_not.mp hnone
    -- a text meets the comparisons, and a value is not read as it is
    by_cases hplain : ∀ t ∈ ts, t.PlainValue
    · exact .inl hplain
    obtain ⟨t, ht, hvalue⟩ : ∃ t ∈ ts, ¬ t.PlainValue := by
      by_contra hno
      exact hplain fun t ht => by_contra fun hvalue => hno ⟨t, ht, hvalue⟩
    by_cases hone : ∃ t ∈ ts, t.op = .EQUAL ∧ t.PlainValue
    · obtain ⟨t, ht, hop, hvalue⟩ := hone
      -- an EQUAL whose value is read as it is: that value is the only text
      have hhead := (hplainEqual hop).mp hvalue
      have htext := ((compares_equal_iff hop text).mp (hall t ht)).resolve_left fun heq =>
        hhead (by rw [heq]; rfl)
      exact .inr (.inl ⟨t, ht, hop, hvalue, htext.2 ▸ (hsame text).mp hall⟩)
    · -- without its `%` the text is compared with success too, but not what `t` asks for
      exfalso
      have hfilter : ∀ t ∈ ts, t.Compares T2 (text.filter (· ≠ '%')) := by
        intro t' ht'
        rcases hops t' ht' with hop | hop
        · rw [compares_equal_iff hop]
          refine ((compares_equal_iff hop text).mp (hall t' ht')).imp_right fun htext => ?_
          exact absurd ⟨t', ht', hop, (hplainEqual hop).mpr htext.1⟩ hone
        · exact compares_filter hop (hall t' ht')
      have hholds := (hsame _).mp hfilter t ht
      have hpercent : '%' ∉ text.filter (· ≠ '%') := fun hmem =>
        absurd rfl (of_decide_eq_true (List.mem_filter.mp hmem).2)
      rcases hops t ht with hop | hop
      · rw [hplainEqual hop, not_not] at hvalue
        rw [(holdsText_equal_iff hop ..).mp hholds] at hpercent
        exact hpercent (List.mem_of_mem_head? hvalue)
      · unfold SessionMatch.PlainValue at hvalue
        rw [if_pos hop, not_not] at hvalue
        exact hpercent (((holdsText_prefix_iff hop ..).mp hholds).subset hvalue)
  · -- conversely each of the three makes both sides say the same
    rintro (hplain | ⟨t, ht, hop, hvalue, hholds⟩ | ⟨hnone, hnone'⟩) text
    · refine forall₂_congr fun t ht => ?_
      exact (comparedExactly_iff t regex_match le T2).mpr
        ((comparedExactly_iff_plainValue hops ht).mpr (hplain t ht)) text
    · have hhead := (hplainEqual hop).mp hvalue
      have hone : t.value.toList ≠ ['%'] := fun heq => hhead (by rw [heq]; rfl)
      constructor
      · intro hall
        rw [(((compares_equal_iff hop text).mp (hall t ht)).resolve_left hone).2]
        exact hholds
      · intro hall t' ht'
        obtain rfl := (holdsText_equal_iff hop ..).mp (hall t ht)
        rcases hops t' ht' with hop' | hop'
        · have heq := (holdsText_equal_iff hop' ..).mp (hholds t' ht')
          exact (compares_equal_iff hop' _).mpr (.inr ⟨heq ▸ hhead, heq⟩)
        · exact compares_of_prefix hop' ((holdsText_prefix_iff hop' ..).mp (hholds t' ht'))
    · exact ⟨fun hall => absurd hall (hnone text), fun hall => absurd hall (hnone' text)⟩

end Several

-- ---------------------------------------------------------------------------
-- Whole terms
-- ---------------------------------------------------------------------------

section Terms

variable (regex_match : Text → Text → Bool) (le : TextField → Text → Text → Bool) (T2 : Nat)
  {terms : List SessionMatch}
  (hops : ∀ t ∈ terms, ∀ field, t.field = .text field → t.op = .EQUAL ∨ t.op = .PREFIX)
include hops

omit regex_match le T2 in
theorem onText_ops (field : TextField) : ∀ t ∈ onText terms field, t.op = .EQUAL ∨ t.op = .PREFIX :=
  (forall_onText_iff terms field _).mpr fun t ht hfield => hops t ht field hfield

theorem noRowCompared_values_iff : NoRowCompared T2 terms ↔
    SliceEmpty terms ∨ ∃ field, NoneCompared T2 (onText terms field) :=
  or_congr_right (exists_congr fun field => noTextCompared_iff (onText_ops hops field))

theorem noRowAsked_values_iff : NoRowAsked regex_match le terms ↔
    (∀ x : Fin (2 ^ 16), ¬ InRanges terms .protocol x.val) ∨
      (∀ y : Fin (2 ^ 16), ¬ InRanges terms .server_port y.val) ∨
        ∃ field, NoneAsked regex_match (le field) (onText terms field) :=
  or_congr_right (or_congr_right
    (exists_congr fun field => noTextAsked_iff (onText_ops hops field)))

/-- The texts of a term are compared as its predicates say. -/
theorem textsExact_values_iff :
    (∀ field, TextExact regex_match T2 (le field) (onText terms field)) ↔
      ∀ field, (∀ t ∈ onText terms field, t.PlainValue) ∨
        (∃ t ∈ onText terms field, t.op = .EQUAL ∧ t.PlainValue ∧
          ∀ t' ∈ onText terms field, t'.HoldsText regex_match (le field) t.value.toList) ∨
        (NoneCompared T2 (onText terms field) ∧
          NoneAsked regex_match (le field) (onText terms field)) :=
  forall_congr' fun field => textExact_values_iff (onText_ops hops field)

end Terms

end TfAnalytics.QueryEngine.SessionWhere
