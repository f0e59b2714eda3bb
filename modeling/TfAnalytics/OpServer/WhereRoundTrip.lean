import TfAnalytics.OpServer.WhereText
import Mathlib.Data.List.Forall2

/-!
# OpServer — a WHERE clause read back

The words `OR`, `AND` and `CONTAINS` are looked for in the whole text, in the names and
values too. `parse_render_iff` says for which queries the parser gives back what was
written.

* A name or a value with `OR` in it makes one term more than there are.
* `AND` in a name shortens the name. `AND` in a value leaves the beginning of the value
  before it, which decodes to something else (`JsonLoads`).
* `CONTAINS` in a name shortens it too; in a value it changes the operator of a test for
  one value or a prefix, and no other.
-/

namespace TfAnalytics.OpServer.WhereText

open TfAnalytics.Lib

-- ---------------------------------------------------------------------------
-- Trimming
-- ---------------------------------------------------------------------------

/-- Nothing to trim at either end. -/
def Bare (s : Text) : Prop :=
  (∀ c ∈ s.head?, trimmed c = false) ∧ ∀ c ∈ s.getLast?, trimmed c = false

theorem dropWhile_append_cons {p : Char → Bool} {c : Char} (hc : p c = false) (x y : Text) :
    (x ++ c :: y).dropWhile p = x.dropWhile p ++ c :: y := by
  induction x with
  | nil => simp [hc]
  | cons d x ih =>
    by_cases hd : p d
    · simpa [hd] using ih
    · simp [hd]

theorem rdropWhile_append_cons {p : Char → Bool} {c : Char} (hc : p c = false) (x y : Text) :
    (x ++ c :: y).rdropWhile p = x ++ c :: y.rdropWhile p := by
  have hreverse := dropWhile_append_cons hc y.reverse x.reverse
  simp only [List.rdropWhile, List.reverse_append, List.reverse_cons, List.append_assoc,
    List.singleton_append, hreverse]
  simp

theorem strip_append_cons {x : Text} (hx : ∀ d ∈ x, trimmed d = true) {c : Char}
    (hc : trimmed c = false) (y : Text) :
    strip (x ++ c :: y) = c :: y.rdropWhile trimmed := by
  rw [strip, List.dropWhile_append_of_pos hx, List.dropWhile_cons_of_neg (by simp [hc])]
  exact rdropWhile_append_cons hc [] y

/-- Trimming the end first changes nothing. -/
theorem strip_rdropWhile (s : Text) : strip (s.rdropWhile trimmed) = strip s := by
  have hbefore : ∀ d ∈ s.takeWhile trimmed, trimmed d = true := fun d hd => List.mem_takeWhile_imp hd
  rw [← @List.takeWhile_append_dropWhile _ trimmed s]
  cases hrest : s.dropWhile trimmed with
  | nil =>
    rw [List.append_nil, List.rdropWhile_eq_nil_iff.mpr hbefore, strip, strip,
      List.dropWhile_eq_nil_iff.mpr hbefore]
    rfl
  | cons c rest =>
    have hc : trimmed c = false := by
      have := @List.head_dropWhile_not _ trimmed s (by simp [hrest])
      simpa [hrest] using this
    rw [rdropWhile_append_cons hc, strip_append_cons hbefore hc, strip_append_cons hbefore hc,
      List.rdropWhile_idempotent]

theorem trimmed_of_mem_replicate (i : Nat) : ∀ d ∈ List.replicate i ' ', trimmed d = true := by
  intro d hd
  rw [List.eq_of_mem_replicate hd]
  rfl

theorem rdropWhile_of_bare {s : Text} (h : Bare s) : s.rdropWhile trimmed = s := by
  rw [List.rdropWhile_eq_self_iff]
  intro hne
  have hlast := h.2 (s.getLast hne) (List.getLast?_eq_some_getLast hne)
  simp [hlast]

/-- Blanks around a text are trimmed. -/
theorem strip_padded {p s : Text} (h : Bare s) (hne : s ≠ []) (hp : Padded ' ' p s) :
    strip p = s := by
  obtain ⟨i, j, rfl⟩ := hp
  have hend : (s ++ List.replicate j ' ').rdropWhile trimmed = s.rdropWhile trimmed := by
    induction j with
    | zero => simp
    | succ j ih =>
      rw [List.replicate_succ', ← List.append_assoc, List.rdropWhile_concat_pos trimmed _ _ rfl, ih]
  obtain ⟨c, s, rfl⟩ := List.exists_cons_of_ne_nil hne
  have hc : trimmed c = false := h.1 c rfl
  rw [strip, List.dropWhile_append_of_pos (trimmed_of_mem_replicate i), List.cons_append,
    List.dropWhile_cons_of_neg (by simp [hc]), ← List.cons_append, hend, rdropWhile_of_bare h]

/-- The beginning of a text loses letters at its end only. -/
theorem prefix_strip {s t : Text} (h : Bare t) (hs : s <+: t) : strip s <+: s := by
  cases s with
  | nil => exact List.prefix_refl _
  | cons c s =>
    obtain ⟨z, rfl⟩ := hs
    have hc : trimmed c = false := h.1 c rfl
    rw [strip, List.dropWhile_cons_of_neg (by simp [hc])]
    exact List.rdropWhile_prefix _ _

-- ---------------------------------------------------------------------------
-- The operator
-- ---------------------------------------------------------------------------

theorem not_contains_nil : ¬ wordCONTAINS <:+: [] := by decide

theorem reSplit_append_cons {x : Text} {c : Char} (heq : '=' ∉ x) (hfree : ¬ wordCONTAINS <:+: x)
    (hc : c ∉ wordCONTAINS) (y : Text) :
    reSplit (x ++ c :: y) = (reSplit (c :: y)).map fun parts => (x ++ parts.1, parts.2) := by
  induction x with
  | nil => simp
  | cons d x ih =>
    rw [List.mem_cons, not_or] at heq
    rw [List.infix_cons_iff, not_or] at hfree
    have hnot : ¬ wordCONTAINS <+: d :: (x ++ c :: y) := by
      rw [← List.cons_append, prefix_append_cons_iff hc]
      exact hfree.1
    rw [List.cons_append, reSplit, if_neg (Ne.symm heq.1), if_neg hnot, ih heq.2 hfree.2,
      Option.map_map]
    rfl

theorem reSplit_space_word (y : Text) : reSplit (' ' :: (wordCONTAINS ++ y)) = some ([' '], y) := by
  have hword : reSplit (wordCONTAINS ++ y) = some ([], y) := by
    show reSplit ('C' :: ("ONTAINS".toList ++ y)) = _
    have hstart : wordCONTAINS <+: 'C' :: ("ONTAINS".toList ++ y) :=
      List.prefix_append wordCONTAINS y
    rw [reSplit, if_neg (by decide), if_pos hstart]
    rfl
  have hspace : ¬ wordCONTAINS <+: ' ' :: (wordCONTAINS ++ y) := fun h =>
    absurd (List.cons_prefix_cons.mp h).1 (by decide)
  rw [reSplit, if_neg (by decide), if_neg hspace, hword]
  rfl

/-- What is left of the operator is the beginning of the text, without the word. -/
theorem reSplit_left {s : Text} {parts : Text × Text} (h : reSplit s = some parts) :
    parts.1 <+: s ∧ ¬ wordCONTAINS <:+: parts.1 := by
  induction s generalizing parts with
  | nil => cases h
  | cons c s ih =>
    rw [reSplit] at h
    split at h
    · cases h
      exact ⟨List.nil_prefix, not_contains_nil⟩
    · split at h
      · cases h
        exact ⟨List.nil_prefix, not_contains_nil⟩
      · rename_i hword
        obtain ⟨rest, hrest, rfl⟩ := Option.map_eq_some_iff.mp h
        obtain ⟨hstart, hfree⟩ := ih hrest
        refine ⟨List.cons_prefix_cons.mpr ⟨rfl, hstart⟩, ?_⟩
        rw [List.infix_cons_iff, not_or]
        exact ⟨fun hx => hword (hx.trans (List.cons_prefix_cons.mpr ⟨rfl, hstart⟩)), hfree⟩

theorem operator_cases (test : Test) :
    test.operator = ['='] ∨ test.operator = ' ' :: (wordCONTAINS ++ [' ']) := by
  cases test
  · exact .inl rfl
  · exact .inl rfl
  · exact .inl rfl
  · exact .inr rfl

/-- A condition is cut at the operator that was written, if the names are without both. -/
theorem reSplit_operator {x : Text} (hx : Bare x) (hne : x ≠ []) (heq : '=' ∉ x)
    (hfree : ¬ wordCONTAINS <:+: x) (test : Test) (i : Nat) (y : Text) :
    ∃ left right, reSplit (strip (List.replicate i ' ' ++ (x ++ (test.operator ++ y)))) =
      some (left, right) ∧ strip left = x ∧ strip right = strip y := by
  obtain ⟨c, x', rfl⟩ := List.exists_cons_of_ne_nil hne
  have hc : trimmed c = false := hx.1 c rfl
  have hcut : ∀ (z : Text) (d : Char) (u : Text), trimmed d = false →
      strip (List.replicate i ' ' ++ (c :: x' ++ (z ++ d :: u))) =
        c :: x' ++ (z ++ d :: u.rdropWhile trimmed) := by
    intro z d u hd
    have hend := rdropWhile_append_cons hd (x' ++ z) u
    rw [List.append_assoc, List.append_assoc] at hend
    rw [List.cons_append, strip_append_cons (trimmed_of_mem_replicate i) hc, hend]
    rfl
  rcases operator_cases test with hop | hop
  · have htext := hcut [] '=' y rfl
    refine ⟨c :: x', y.rdropWhile trimmed, ?_, strip_padded hx hne ⟨0, 0, by simp⟩, strip_rdropWhile y⟩
    rw [hop]
    rw [List.nil_append, List.nil_append] at htext
    rw [List.singleton_append, htext, reSplit_append_cons heq hfree (by decide), reSplit,
      if_pos rfl]
    simp
  · have htext := hcut " CONTAIN".toList 'S' (' ' :: y) rfl
    refine ⟨c :: x' ++ [' '], (' ' :: y).rdropWhile trimmed, ?_,
      strip_padded hx hne ⟨0, 1, by simp⟩, ?_⟩
    · have hspace := reSplit_append_cons heq hfree (c := ' ') (by decide)
        (wordCONTAINS ++ (' ' :: y).rdropWhile trimmed)
      rw [reSplit_space_word] at hspace
      rw [hop]
      exact (congrArg reSplit htext).trans hspace
    · rw [strip_rdropWhile]
      rfl

-- ---------------------------------------------------------------------------
-- Conditions as they are written
-- ---------------------------------------------------------------------------

namespace Plain

variable {s : Text} (h : Plain s)

include h in
theorem not_mem {d : Char} (hd : d ∈ "=<|*()".toList) : d ∉ s := fun hmem => h.chars d hmem hd

include h in
theorem trimmed_eq_false {c : Char} (hc : c ∈ s) (hblank : c ≠ ' ') : trimmed c = false := by
  have hopen : c ≠ '(' := fun hopen => h.not_mem (by decide) (hopen ▸ hc)
  have hclose : c ≠ ')' := fun hclose => h.not_mem (by decide) (hclose ▸ hc)
  simp [trimmed, hblank, hopen, hclose]

include h in
theorem bare : Bare s := by
  constructor
  · intro c hc
    refine h.trimmed_eq_false (List.mem_of_head? hc) fun hblank => h.head ?_
    exact hblank ▸ hc
  · intro c hc
    refine h.trimmed_eq_false (List.mem_of_getLast? hc) fun hblank => h.last ?_
    exact hblank ▸ hc

end Plain

theorem bare_append_cons {x : Text} (hx : Bare x) (hne : x ≠ []) {d : Char} {y : Text}
    (hlast : ∀ c ∈ (d :: y).getLast?, trimmed c = false) : Bare (x ++ d :: y) := by
  obtain ⟨a, x, rfl⟩ := List.exists_cons_of_ne_nil hne
  refine ⟨hx.1, ?_⟩
  rw [List.getLast?_append_of_ne_nil _ (List.cons_ne_nil d y)]
  exact hlast

theorem bare_join {x y : Text} (hx : Bare x) (hxne : x ≠ []) (hy : Bare y) (hyne : y ≠ [])
    (d : Char) : Bare (x ++ d :: y) := by
  obtain ⟨b, y, rfl⟩ := List.exists_cons_of_ne_nil hyne
  exact bare_append_cons hx hxne hy.2

namespace Test

/-- One value is written, after a `=`. -/
def OneValue : Test → Prop
  | .EQUAL _ | .PREFIX _ => True
  | .IN_RANGE _ _ | .CONTAINS _ => False

variable (test : Test)

theorem text_ne_nil : test.text ≠ [] := by
  cases test with
  | EQUAL v => exact v.property.ne_nil
  | PREFIX v => simp [text]
  | IN_RANGE v v2 => simp [text]
  | CONTAINS v => exact v.property.ne_nil

theorem text_bare : Bare test.text := by
  cases test with
  | EQUAL v => exact v.property.bare
  | PREFIX v =>
    refine bare_append_cons v.property.bare v.property.ne_nil fun c hc => ?_
    cases hc
    rfl
  | IN_RANGE v v2 =>
    exact bare_join v.property.bare v.property.ne_nil v2.property.bare v2.property.ne_nil '<'
  | CONTAINS v => exact v.property.bare

theorem not_mem_text : '|' ∉ test.text := by
  cases test with
  | EQUAL v => exact v.property.not_mem (by decide)
  | PREFIX v => simp [text, v.property.not_mem]
  | IN_RANGE v v2 => simp [text, v.property.not_mem, v2.property.not_mem]
  | CONTAINS v => exact v.property.not_mem (by decide)

end Test

namespace Cond

variable (c : Cond)

theorem nameText_ne_nil : c.nameText ≠ [] := by
  obtain ⟨_ | f, name, test⟩ := c
  · exact name.property.ne_nil
  · simp [nameText]

theorem nameText_bare : Bare c.nameText := by
  obtain ⟨_ | f, name, test⟩ := c
  · exact name.property.bare
  · exact bare_join f.1.property.bare f.1.property.ne_nil name.property.bare
      name.property.ne_nil '|'

theorem not_mem_nameText : '=' ∉ c.nameText := by
  obtain ⟨_ | f, name, test⟩ := c
  · exact name.property.not_mem (by decide)
  · simp [nameText, name.property.not_mem, f.1.property.not_mem]

theorem valueText_ne_nil : c.valueText ≠ [] := by
  obtain ⟨_ | f, name, test⟩ := c
  · exact test.text_ne_nil
  · simp [valueText]

theorem valueText_bare : Bare c.valueText := by
  obtain ⟨_ | f, name, test⟩ := c
  · exact test.text_bare
  · exact bare_join f.2.property.bare f.2.property.ne_nil test.text_bare test.text_ne_nil '|'

theorem render_ne_nil : c.render ≠ [] := List.append_ne_nil_of_left_ne_nil c.nameText_ne_nil _

end Cond

/-- What is written around names and values. -/
def signs : Text := [' ', '=', '|', '<', '*']

section Words

variable {w : Text} (hne : w ≠ []) (hsep : ∀ d ∈ signs, d ∉ w)
include hsep

include hne in
theorem infix_text_iff (test : Test) : w <:+: test.text ↔ ∃ t ∈ test.values, w <:+: t := by
  cases test with
  | EQUAL v => simp [Test.text, Test.values]
  | PREFIX v =>
    have hstar : '*' ∉ w := hsep '*' (by decide)
    simp [Test.text, Test.values, infix_append_cons_iff hstar, hne]
  | IN_RANGE v v2 =>
    have hless : '<' ∉ w := hsep '<' (by decide)
    simp [Test.text, Test.values, infix_append_cons_iff hless]
  | CONTAINS v => simp [Test.text, Test.values]

theorem infix_nameText_iff (c : Cond) : w <:+: c.nameText ↔ ∃ t ∈ c.names, w <:+: t := by
  obtain ⟨_ | f, name, test⟩ := c
  · simp [Cond.nameText, Cond.names]
  · simp [Cond.nameText, Cond.names, infix_append_cons_iff (hsep '|' (by decide))]

include hne in
theorem infix_valueText_iff (c : Cond) : w <:+: c.valueText ↔ ∃ t ∈ c.values, w <:+: t := by
  obtain ⟨_ | f, name, test⟩ := c
  · exact infix_text_iff hne hsep test
  · simp [Cond.valueText, Cond.values, infix_append_cons_iff (hsep '|' (by decide)),
      infix_text_iff hne hsep test]

include hne in
theorem infix_operator_iff (test : Test) (x y : Text) :
    w <:+: x ++ (test.operator ++ y) ↔ w <:+: x ∨ w <:+: test.operator ∨ w <:+: y := by
  have hequal : '=' ∉ w := hsep '=' (by decide)
  have hspace : ' ' ∉ w := hsep ' ' (by decide)
  rcases operator_cases test with hop | hop
  · have hown : ¬ w <:+: ['='] := by
      have hsign := @infix_append_cons_iff _ '=' w [] [] hequal
      simpa [hne] using hsign
    rw [hop, List.singleton_append, infix_append_cons_iff hequal, or_iff_right hown]
  · have htext : x ++ (test.operator ++ y) = x ++ ' ' :: (wordCONTAINS ++ ' ' :: y) := by
      rw [hop]
      simp
    have hown : w <:+: test.operator ↔ w <:+: wordCONTAINS := by
      rw [hop, ← List.nil_append (' ' :: _), infix_append_cons_iff hspace,
        infix_append_cons_iff hspace]
      simp [hne]
    rw [htext, hown, infix_append_cons_iff hspace, infix_append_cons_iff hspace]

end Words

-- ---------------------------------------------------------------------------
-- A condition read back
-- ---------------------------------------------------------------------------

section Values

variable {V : Type} (loads : Text → V)

/-- The test is read back if `contains` is what it should be. -/
def Test.Fits (contains : Bool) : Test → Prop
  | .EQUAL _ | .PREFIX _ => contains = false
  | .IN_RANGE _ _ => True
  | .CONTAINS _ => contains = true

/-- A text without a star is a value to be equal to, or a text to be contained. -/
theorem matchElem_singleton {s : Text} (hstar : '*' ∉ s) (contains : Bool) (name : Text) :
    matchElem loads contains name [s] =
      if s = [] ∧ contains = false then none
      else some ⟨name, loads s, if contains then .CONTAINS else .EQUAL, none⟩ := by
  cases contains with
  | true => simp [matchElem]
  | false =>
    cases hlast : s.getLast? with
    | none => simp [matchElem, List.getLast?_eq_none_iff.mp hlast]
    | some a =>
      have hne : s ≠ [] := List.ne_nil_of_mem (List.mem_of_getLast? hlast)
      have ha : a ≠ '*' := fun ha => hstar (ha ▸ List.mem_of_getLast? hlast)
      simp [matchElem, hlast, ha, hne]

theorem matchElem_text_iff (test : Test) (contains : Bool) (name : Text) :
    matchElem loads contains name (test.text.splitOn '<') = some (test.toMatch loads name) ↔
      test.Fits contains := by
  cases test with
  | EQUAL v =>
    have hnot : '<' ∉ v.val := v.property.not_mem (by decide)
    have hstar : '*' ∉ v.val := v.property.not_mem (by decide)
    rw [Test.text, List.splitOn_eq_singleton hnot, matchElem_singleton loads hstar]
    cases contains <;> simp [Test.toMatch, Test.Fits, v.property.ne_nil]
  | PREFIX v =>
    have hnot : '<' ∉ v.val ++ ['*'] := by simp [v.property.not_mem]
    rw [Test.text, List.splitOn_eq_singleton hnot]
    cases contains <;> simp [matchElem, Test.toMatch, Test.Fits]
  | IN_RANGE v v2 =>
    have hnot : '<' ∉ v.val := v.property.not_mem (by decide)
    have hnot2 : '<' ∉ v2.val := v2.property.not_mem (by decide)
    rw [Test.text, List.splitOn_append_cons_self_of_not_mem hnot, List.splitOn_eq_singleton hnot2]
    simp [matchElem, Test.toMatch, Test.Fits]
  | CONTAINS v =>
    have hnot : '<' ∉ v.val := v.property.not_mem (by decide)
    have hstar : '*' ∉ v.val := v.property.not_mem (by decide)
    rw [Test.text, List.splitOn_eq_singleton hnot, matchElem_singleton loads hstar]
    cases contains <;> simp [Test.toMatch, Test.Fits, v.property.ne_nil]

theorem parseParts_iff (c : Cond) (contains : Bool) :
    parseParts loads contains c.nameText c.valueText = some (c.toMatch loads) ↔
      c.test.Fits contains := by
  rw [← matchElem_text_iff loads c.test contains c.name.val]
  have hname : '|' ∉ c.name.val := c.name.property.not_mem (by decide)
  obtain ⟨_ | f, name, test⟩ := c
  · rw [parseParts, Cond.nameText, List.splitOn_eq_singleton hname]
    simp [Cond.valueText, Cond.toMatch]
  · have hfront : '|' ∉ f.1.val := f.1.property.not_mem (by decide)
    have hvalue : '|' ∉ f.2.val := f.2.property.not_mem (by decide)
    rw [parseParts, Cond.nameText, List.splitOn_append_cons_self_of_not_mem hfront,
      List.splitOn_eq_singleton hname, Cond.valueText,
      List.splitOn_append_cons_self_of_not_mem hvalue,
      List.splitOn_eq_singleton test.not_mem_text]
    simp [Cond.toMatch]

end Values

/-- What is read of the beginning of a text without the signs. -/
theorem matchElem_start {V : Type} {loads : Text → V} {s v : Text} (hv : Plain v) (hs : s <+: v)
    {contains : Bool} {name : Text} {elem : Match V}
    (h : matchElem loads contains name (s.splitOn '<') = some elem) :
    elem = ⟨name, loads s, if contains then .CONTAINS else .EQUAL, none⟩ := by
  have hnot : '<' ∉ s := fun hmem => hv.not_mem (by decide) (hs.subset hmem)
  have hstar : '*' ∉ s := fun hmem => hv.not_mem (by decide) (hs.subset hmem)
  rw [List.splitOn_eq_singleton hnot, matchElem_singleton loads hstar] at h
  split at h
  · cases h
  · exact (Option.some.inj h).symm

/-- Where the beginning of a text reads as the test, no `AND` is cut off. -/
theorem and_of_matchElem {V : Type} (J : JsonLoads V) {test : Test} {s : Text}
    (hs : s <+: test.text) (hin : wordAND <:+: test.text) {contains : Bool} {name : Text}
    (h : matchElem J.loads contains name (s.splitOn '<') = some (test.toMatch J.loads name)) :
    wordAND <:+: s := by
  have hop : ∀ b : Bool, (if b then MatchOp.CONTAINS else MatchOp.EQUAL) ≠ .PREFIX ∧
      (if b then MatchOp.CONTAINS else MatchOp.EQUAL) ≠ .IN_RANGE := by decide
  cases test with
  | EQUAL v =>
    have helem := matchElem_start v.property hs h
    exact J.keeps_and s v.val hs (congrArg Match.value helem).symm hin
  | PREFIX v =>
    rcases List.prefix_concat_iff.mp hs with rfl | hs
    · exact hin
    · have helem := matchElem_start v.property hs h
      exact absurd (congrArg Match.op helem).symm (hop contains).1
  | IN_RANGE v v2 =>
    rcases prefix_append_cons_cases hs with hs | ⟨s2, rfl, hs2⟩
    · have helem := matchElem_start v.property hs h
      exact absurd (congrArg Match.op helem).symm (hop contains).2
    · have hv : '<' ∉ v.val := v.property.not_mem (by decide)
      have hless : '<' ∉ s2 := fun hmem => v2.property.not_mem (by decide) (hs2.subset hmem)
      rw [List.splitOn_append_cons_self_of_not_mem hv, List.splitOn_eq_singleton hless] at h
      have hloads : J.loads s2 = J.loads v2.val :=
        Option.some.inj (congrArg Match.value2 (Option.some.inj h))
      rw [Test.text, infix_append_cons_iff (by decide)] at hin
      rw [infix_append_cons_iff (by decide)]
      exact hin.imp_right (J.keeps_and s2 v2.val hs2 hloads)
  | CONTAINS v =>
    have helem := matchElem_start v.property hs h
    exact J.keeps_and s v.val hs (congrArg Match.value helem).symm hin

/-- Where the beginning of the values reads as the condition, no `AND` is cut off. -/
theorem and_of_parseParts {V : Type} (J : JsonLoads V) {c : Cond} {s : Text}
    (hs : s <+: c.valueText) (hin : wordAND <:+: c.valueText) {contains : Bool}
    (h : parseParts J.loads contains c.nameText s = some (c.toMatch J.loads)) :
    wordAND <:+: s := by
  have hname : '|' ∉ c.name.val := c.name.property.not_mem (by decide)
  obtain ⟨_ | f, name, test⟩ := c
  · rw [parseParts, Cond.nameText, List.splitOn_eq_singleton hname] at h
    obtain ⟨elem, helem, hdict⟩ := Option.map_eq_some_iff.mp h
    obtain rfl : elem = test.toMatch J.loads name.val := congrArg MatchDict.elem hdict
    exact and_of_matchElem J hs hin helem
  · have hfront : '|' ∉ f.1.val := f.1.property.not_mem (by decide)
    rw [parseParts, Cond.nameText, List.splitOn_append_cons_self_of_not_mem hfront,
      List.splitOn_eq_singleton hname] at h
    have hparts : s <+: f.2.val ++ '|' :: test.text := hs
    rcases prefix_append_cons_cases hparts with hfirst | ⟨s2, rfl, hs2⟩
    · have hbar : '|' ∉ s := fun hmem => f.2.property.not_mem (by decide) (hfirst.subset hmem)
      rw [List.splitOn_eq_singleton hbar] at h
      cases h
    · have hvalue : '|' ∉ f.2.val := f.2.property.not_mem (by decide)
      have hbar : '|' ∉ s2 := fun hmem => test.not_mem_text (hs2.subset hmem)
      rw [List.splitOn_append_cons_self_of_not_mem hvalue, List.splitOn_eq_singleton hbar] at h
      obtain ⟨elem, helem, hdict⟩ := Option.map_eq_some_iff.mp h
      obtain rfl : elem = test.toMatch J.loads name.val :=
        Option.some.inj (congrArg MatchDict.suffix hdict)
      rw [Cond.valueText, infix_append_cons_iff (by decide)] at hin
      rw [infix_append_cons_iff (by decide)]
      exact hin.imp_right fun hin => and_of_matchElem J hs2 hin helem

section Names

variable {V : Type} {loads : Text → V}

theorem infix_of_mem_splitOn {d : Char} {s part : Text} (h : part ∈ s.splitOn d) : part <:+: s := by
  have hpart := infix_intercalate_of_mem h [d]
  rwa [List.intercalate_splitOn] at hpart

theorem infix_strip (s : Text) : strip s <:+: s :=
  (List.rdropWhile_prefix _ _).isInfix.trans (List.dropWhile_suffix _).isInfix

theorem name_of_matchElem {contains : Bool} {name : Text} {match_v : List Text} {elem : Match V}
    (h : matchElem loads contains name match_v = some elem) : elem.name = name := by
  rw [matchElem.eq_def] at h
  split at h
  · cases h
  · split at h
    · exact Option.some.inj h ▸ rfl
    · split at h
      · cases h
      · split at h
        · exact Option.some.inj h ▸ rfl
        · exact Option.some.inj h ▸ rfl
  · exact Option.some.inj h ▸ rfl

theorem name_toMatch (test : Test) (name : Text) : (test.toMatch loads name).name = name := by
  cases test <;> rfl

/-- The names that are read are parts of what is left of the operator. -/
theorem names_of_parseParts {c : Cond} {contains : Bool} {match_e0 match_e1 : Text}
    (h : parseParts loads contains match_e0 match_e1 = some (c.toMatch loads)) :
    ∀ t ∈ c.names, t ∈ match_e0.splitOn '|' := by
  obtain ⟨front, name, test⟩ := c
  have hname : ∀ {tname : Text} {match_v : List Text},
      matchElem loads contains tname match_v = some (test.toMatch loads name.val) →
        name.val = tname := fun hm => (name_toMatch test name.val).symm.trans (name_of_matchElem hm)
  rw [parseParts] at h
  split at h
  · cases h
  · rename_i tname hsplit
    obtain ⟨elem, helem, hdict⟩ := Option.map_eq_some_iff.mp h
    cases front with
    | some f => cases hdict
    | none =>
      obtain rfl : elem = test.toMatch loads name.val := congrArg MatchDict.elem hdict
      rw [hsplit, ← hname helem]
      exact fun t ht => ht
  · rename_i bname tname rest hsplit
    split at h
    · obtain ⟨elem, helem, hdict⟩ := Option.map_eq_some_iff.mp h
      cases front with
      | none => exact nomatch congrArg MatchDict.suffix hdict
      | some f =>
        obtain rfl : elem = test.toMatch loads name.val :=
          Option.some.inj (congrArg MatchDict.suffix hdict)
        have hb : bname = f.1.val := congrArg (fun dict => dict.elem.name) hdict
        rw [hsplit, ← hname helem, hb]
        simp [Cond.names]
    · cases h

theorem names_of_parseMatch {c : Cond} {m : Text}
    (h : parseMatch loads m = some (c.toMatch loads)) :
    ∀ t ∈ c.names, t <:+: m ∧ ¬ wordCONTAINS <:+: t := by
  intro t ht
  obtain ⟨parts, hparts, hmatch⟩ := Option.bind_eq_some_iff.mp h
  obtain ⟨hstart, hfree⟩ := reSplit_left hparts
  have hleft : t <:+: parts.1 :=
    (infix_of_mem_splitOn (names_of_parseParts hmatch t ht)).trans (infix_strip parts.1)
  exact ⟨hleft.trans (hstart.isInfix.trans (infix_strip m)), fun hword => hfree (hword.trans hleft)⟩

end Names

-- ---------------------------------------------------------------------------
-- A condition read back
-- ---------------------------------------------------------------------------

theorem wordOR_ne_nil : wordOR ≠ [] := by decide
theorem wordAND_ne_nil : wordAND ≠ [] := by decide
theorem wordCONTAINS_ne_nil : wordCONTAINS ≠ [] := by decide

theorem not_mem_of_all {w : Text} (h : (signs.all fun d => !w.contains d) = true) :
    ∀ d ∈ signs, d ∉ w := by
  intro d hd hmem
  have hnot := List.all_eq_true.mp h d hd
  simp [hmem] at hnot

theorem sign_not_mem_wordOR : ∀ d ∈ signs, d ∉ wordOR := not_mem_of_all rfl
theorem sign_not_mem_wordAND : ∀ d ∈ signs, d ∉ wordAND := not_mem_of_all rfl
theorem sign_not_mem_wordCONTAINS : ∀ d ∈ signs, d ∉ wordCONTAINS := not_mem_of_all rfl

theorem letter_mem_wordOR : 'R' ∈ wordOR := by decide
theorem letter_mem_wordAND : 'D' ∈ wordAND := by decide

theorem operator_free {w : Text} (hsep : ∀ d ∈ signs, d ∉ w) {e : Char} (he : e ∈ w)
    (hnot : e ∉ wordCONTAINS) (test : Test) : ¬ w <:+: test.operator := by
  intro hword
  have hmem : e ∈ test.operator := hword.subset he
  have hequal : e ≠ '=' := fun heq => hsep '=' (by decide) (heq ▸ he)
  have hspace : e ≠ ' ' := fun heq => hsep ' ' (by decide) (heq ▸ he)
  rcases operator_cases test with hop | hop <;> rw [hop] at hmem
  · exact hequal (List.mem_singleton.mp hmem)
  · simp [hspace, hnot] at hmem

/-- With names that are without `CONTAINS`, the values are what is right of the operator. -/
theorem parseMatch_operator {V : Type} (loads : Text → V) (c : Cond)
    (hnames : ∀ t ∈ c.names, ¬ wordCONTAINS <:+: t) {m : Text} {i : Nat} {y : Text}
    (hm : m = List.replicate i ' ' ++ (c.nameText ++ (c.test.operator ++ y))) :
    parseMatch loads m =
      parseParts loads (decide (wordCONTAINS <:+: m)) c.nameText (strip y) := by
  have hfree : ¬ wordCONTAINS <:+: c.nameText := by
    rw [infix_nameText_iff sign_not_mem_wordCONTAINS]
    exact fun ⟨t, ht, hword⟩ => hnames t ht hword
  obtain ⟨left, right, hsplit, hleft, hright⟩ := reSplit_operator c.nameText_bare c.nameText_ne_nil
    c.not_mem_nameText hfree c.test i y
  rw [← hm] at hsplit
  rw [parseMatch, hsplit, Option.bind_some, hleft, hright]

/-- What is to be the case for a condition, cut out at the right places, to be read back. -/
def Cond.ContainsFree (c : Cond) : Prop :=
  (∀ t ∈ c.names, ¬ wordCONTAINS <:+: t) ∧
    (c.test.OneValue → ∀ t ∈ c.values, ¬ wordCONTAINS <:+: t)

theorem fits_iff {c : Cond} (hnames : ∀ t ∈ c.names, ¬ wordCONTAINS <:+: t) {p : Text}
    (hp : Padded ' ' p c.render) :
    c.test.Fits (decide (wordCONTAINS <:+: p)) ↔
      (c.test.OneValue → ∀ t ∈ c.values, ¬ wordCONTAINS <:+: t) := by
  have hword : wordCONTAINS <:+: p ↔
      wordCONTAINS <:+: c.test.operator ∨ ∃ t ∈ c.values, wordCONTAINS <:+: t := by
    rw [hp.infix_iff wordCONTAINS_ne_nil (by decide), Cond.render,
      infix_operator_iff wordCONTAINS_ne_nil sign_not_mem_wordCONTAINS,
      infix_nameText_iff sign_not_mem_wordCONTAINS,
      infix_valueText_iff wordCONTAINS_ne_nil sign_not_mem_wordCONTAINS]
    refine or_iff_right ?_
    exact fun ⟨t, ht, hword⟩ => hnames t ht hword
  have hequal : ¬ wordCONTAINS <:+: ['='] := by decide
  have hspace : wordCONTAINS <:+: ' ' :: (wordCONTAINS ++ [' ']) := by decide
  cases htest : c.test with
  | EQUAL v => simp [Test.Fits, Test.OneValue, hword, htest, Test.operator, hequal]
  | PREFIX v => simp [Test.Fits, Test.OneValue, hword, htest, Test.operator, hequal]
  | IN_RANGE v v2 => simp [Test.Fits, Test.OneValue]
  | CONTAINS v => simp [Test.Fits, Test.OneValue, hword, htest, Test.operator, hspace]

theorem parseMatch_padded_iff {V : Type} (loads : Text → V) {c : Cond} {p : Text}
    (hp : Padded ' ' p c.render) :
    parseMatch loads p = some (c.toMatch loads) ↔ c.ContainsFree := by
  have hnames_iff : (∀ t ∈ c.names, ¬ wordCONTAINS <:+: t) →
      (parseMatch loads p = some (c.toMatch loads) ↔
        (c.test.OneValue → ∀ t ∈ c.values, ¬ wordCONTAINS <:+: t)) := by
    intro hnames
    have hfits := fits_iff hnames hp
    obtain ⟨i, j, hpieces⟩ := hp
    have hvalues : strip (c.valueText ++ List.replicate j ' ') = c.valueText :=
      strip_padded c.valueText_bare c.valueText_ne_nil ⟨0, j, rfl⟩
    have htext : p = List.replicate i ' ' ++ (c.nameText ++ (c.test.operator ++
        (c.valueText ++ List.replicate j ' '))) := by
      rw [hpieces]
      simp [Cond.render]
    rw [parseMatch_operator loads c hnames htext, hvalues, parseParts_iff, hfits]
  constructor
  · intro h
    have hnames := fun t ht => (names_of_parseMatch h t ht).2
    exact ⟨hnames, (hnames_iff hnames).mp h⟩
  · exact fun h => (hnames_iff h.1).mpr h.2

-- ---------------------------------------------------------------------------
-- A term read back
-- ---------------------------------------------------------------------------

/-- The conditions between the `AND`. -/
def parseMatches {V : Type} (loads : Text → V) (texts : List Text) : Option (List (MatchDict V)) :=
  (texts.filter fun m => m ≠ []).mapM (parseMatch loads)

theorem parseMatches_cons_iff {V : Type} {loads : Text → V} {p : Text} (hp : p ≠ [])
    {ps : List Text} {r : MatchDict V} {rs : List (MatchDict V)} :
    parseMatches loads (p :: ps) = some (r :: rs) ↔
      parseMatch loads p = some r ∧ parseMatches loads ps = some rs := by
  rw [parseMatches, List.filter_cons_of_pos (by simpa using hp), List.mapM_cons]
  show ((parseMatch loads p).bind fun r' => (parseMatches loads ps).bind fun rs' =>
    some (r' :: rs')) = some (r :: rs) ↔ _
  cases parseMatch loads p <;> cases parseMatches loads ps <;> simp

/-- What the first condition is read from. -/
theorem exists_of_parseMatches {V : Type} {loads : Text → V} {ps : List Text} {r : MatchDict V}
    {rs : List (MatchDict V)} (h : parseMatches loads ps = some (r :: rs)) :
    ∃ p ∈ ps, parseMatch loads p = some r := by
  induction ps with
  | nil => cases h
  | cons p ps ih =>
    by_cases hp : p = []
    · have hskip : parseMatches loads (p :: ps) = parseMatches loads ps := by
        rw [parseMatches, List.filter_cons_of_neg (by simpa using hp)]
        rfl
      obtain ⟨q, hq, hmatch⟩ := ih (hskip.symm.trans h)
      exact ⟨q, List.mem_cons_of_mem p hq, hmatch⟩
    · exact ⟨p, List.mem_cons_self, ((parseMatches_cons_iff hp).mp h).1⟩

/-- Up to the values the first piece is what was written. -/
theorem cutWord_operator {x : Text} (hfree : ¬ wordAND <:+: x) (test : Test) (y : Text) :
    (cutWord wordAND 0 (x ++ (test.operator ++ y))).1 =
      x ++ (test.operator ++ (cutWord wordAND 0 y).1) := by
  rcases operator_cases test with hop | hop
  · rw [hop, List.singleton_append, cutWord_append_cons wordAND_ne_nil (by decide) hfree]
    rfl
  · have htext : ∀ z, x ++ (test.operator ++ z) = (x ++ ' ' :: wordCONTAINS) ++ ' ' :: z := by
      intro z
      rw [hop]
      simp
    have hword : ¬ wordAND <:+: x ++ ' ' :: wordCONTAINS := by
      rw [infix_append_cons_iff (by decide), not_or]
      have hletter : 'D' ∉ wordCONTAINS := by decide
      exact ⟨hfree, fun hword => hletter (hword.subset letter_mem_wordAND)⟩
    rw [htext, htext, cutWord_append_cons wordAND_ne_nil (by decide) hword]

/-- Where the first condition is read back, there is no `AND` in it. -/
theorem and_free_of_parseMatches {V : Type} (J : JsonLoads V) {c : Cond} {i : Nat} {rest : Text}
    {rs : List (MatchDict V)}
    (h : parseMatches J.loads (pieces wordAND (List.replicate i ' ' ++ (c.render ++ rest))) =
      some (c.toMatch J.loads :: rs)) : ¬ wordAND <:+: c.render := by
  obtain ⟨q, hq, hmatch⟩ := exists_of_parseMatches h
  have hnames := names_of_parseMatch hmatch
  have hname : ¬ wordAND <:+: c.nameText := by
    rw [infix_nameText_iff sign_not_mem_wordAND]
    intro ⟨t, ht, hword⟩
    exact not_infix_of_mem_pieces wordAND_ne_nil hq (hword.trans (hnames t ht).1)
  have hoperator := operator_free sign_not_mem_wordAND letter_mem_wordAND (by decide) c.test
  rw [Cond.render, infix_operator_iff wordAND_ne_nil sign_not_mem_wordAND, not_or, not_or]
  refine ⟨hname, hoperator, fun hvalue => ?_⟩
  -- the first piece ends in the values, before the `AND`
  have hbefore : ¬ wordAND <:+: List.replicate i ' ' ++ c.nameText := fun hword =>
    hname ((infix_replicate_append_iff wordAND_ne_nil (by decide) i _).mp hword)
  obtain ⟨hcut, -⟩ := cutWord_fst_append hvalue rest
  have hstart : (cutWord wordAND 0 c.valueText).1 <+: c.valueText :=
    cutWord_fst_prefix wordAND c.valueText
  have hfirst : (cutWord wordAND 0 (List.replicate i ' ' ++ (c.render ++ rest))).1 =
      List.replicate i ' ' ++
        (c.nameText ++ (c.test.operator ++ (cutWord wordAND 0 c.valueText).1)) := by
    have hoper := cutWord_operator hbefore c.test (c.valueText ++ rest)
    rw [hcut] at hoper
    simpa [Cond.render] using hoper
  have hne : (cutWord wordAND 0 (List.replicate i ' ' ++ (c.render ++ rest))).1 ≠ [] := by
    rw [hfirst]
    simp [c.nameText_ne_nil]
  have hread := ((parseMatches_cons_iff hne).mp h).1
  rw [parseMatch_operator J.loads c (fun t ht => (hnames t ht).2) hfirst] at hread
  have hstrip := prefix_strip c.valueText_bare hstart
  have hand := and_of_parseParts J (hstrip.trans hstart) hvalue hread
  have hfree : ¬ wordAND <:+: (cutWord wordAND 0 c.valueText).1 :=
    not_infix_of_mem_pieces wordAND_ne_nil List.mem_cons_self
  exact hfree (hand.trans hstrip.isInfix)

/-- What is needed of a condition to be read back from its term. -/
def Cond.AndContainsFree (c : Cond) : Prop := ¬ wordAND <:+: c.render ∧ c.ContainsFree

/-- The first piece of a term is the first condition, and the others are those of the rest,
if there is no `AND` in the condition. -/
theorem pieces_term (c : Cond) (conds : List Cond) (i j : Nat) :
    ∃ rest p, List.replicate i ' ' ++ (renderTerm (c :: conds) ++ List.replicate j ' ') =
        List.replicate i ' ' ++ (c.render ++ rest) ∧
      Padded ' ' p c.render ∧
      (¬ wordAND <:+: c.render → pieces wordAND (List.replicate i ' ' ++ (c.render ++ rest)) =
        p :: if conds = [] then [] else pieces wordAND
          (List.replicate 1 ' ' ++ (renderTerm conds ++ List.replicate j ' '))) := by
  have hfree : ¬ wordAND <:+: c.render → ¬ wordAND <:+: List.replicate i ' ' ++ c.render :=
    fun hc hword => hc
      ((infix_replicate_append_iff wordAND_ne_nil (by decide) i c.render).mp hword)
  cases conds with
  | nil =>
    refine ⟨List.replicate j ' ', List.replicate i ' ' ++ (c.render ++ List.replicate j ' '),
      by simp [renderTerm, joinWords_singleton], ⟨i, j, rfl⟩, fun hc => ?_⟩
    have hword : ¬ wordAND <:+: List.replicate i ' ' ++ (c.render ++ List.replicate j ' ') := by
      rw [← List.append_assoc, infix_append_replicate_iff wordAND_ne_nil (by decide)]
      exact hfree hc
    rw [pieces, cutWord_of_free hword]
    rfl
  | cons c' conds =>
    refine ⟨' ' :: (wordAND ++ ' ' :: (renderTerm (c' :: conds) ++ List.replicate j ' ')),
      List.replicate i ' ' ++ c.render ++ [' '],
      by simp [renderTerm, joinWords_cons_cons], ⟨i, 1, by simp⟩, fun hc => ?_⟩
    rw [← List.append_assoc, cutWord_joinWords wordAND_ne_nil (by decide) (hfree hc),
      if_neg (List.cons_ne_nil c' conds)]
    rfl

theorem parseMatches_term_iff {V : Type} (J : JsonLoads V) {conds : List Cond} (hne : conds ≠ [])
    (i j : Nat) :
    parseMatches J.loads (pieces wordAND
        (List.replicate i ' ' ++ (renderTerm conds ++ List.replicate j ' '))) =
        some (conds.map fun c => c.toMatch J.loads) ↔
      ∀ c ∈ conds, c.AndContainsFree := by
  induction conds generalizing i with
  | nil => exact absurd rfl hne
  | cons c conds ih =>
    obtain ⟨rest, p, htext, hpadded, hpieces⟩ := pieces_term c conds i j
    have hp : p ≠ [] := by
      obtain ⟨i', j', rfl⟩ := hpadded
      simp [c.render_ne_nil]
    have hread := parseMatch_padded_iff J.loads hpadded
    have hothers : parseMatches J.loads (if conds = [] then [] else pieces wordAND
          (List.replicate 1 ' ' ++ (renderTerm conds ++ List.replicate j ' '))) =
        some (conds.map fun c => c.toMatch J.loads) ↔ ∀ c ∈ conds, c.AndContainsFree := by
      by_cases hconds : conds = []
      · subst hconds
        simp [parseMatches]
      · rw [if_neg hconds]
        exact ih hconds 1
    rw [htext, List.map_cons, List.forall_mem_cons, ← hothers]
    constructor
    · intro h
      have hand := and_free_of_parseMatches J h
      rw [hpieces hand, parseMatches_cons_iff hp] at h
      exact ⟨⟨hand, hread.mp h.1⟩, h.2⟩
    · intro ⟨⟨hand, hcontains⟩, hrest⟩
      rw [hpieces hand, parseMatches_cons_iff hp]
      exact ⟨hread.mpr hcontains, hrest⟩

-- ---------------------------------------------------------------------------
-- The terms
-- ---------------------------------------------------------------------------

section Terms

variable {V : Type} (loads : Text → V)

theorem parseOr_some (acc : List (List (MatchDict V))) (term : Text) :
    parseOr loads (some acc) term = (parseTerm loads term).map fun r =>
      if r = [] then none else some (acc ++ [r]) := by
  rw [parseOr]
  cases parseTerm loads term with
  | none => rfl
  | some r =>
    by_cases hr : r = []
    · subst hr
      rfl
    · have hlength : r.length ≠ 0 := fun hlength => hr (List.eq_nil_of_length_eq_zero hlength)
      show (if r.length = 0 then some none else some (some (acc ++ [r]))) = some (if r = [] then _ else _)
      rw [if_neg hlength, if_neg hr]

/-- After a term without conditions there is no list any more. -/
theorem foldlM_parseOr_none (terms : List Text) (result : List (List (MatchDict V))) :
    terms.foldlM (parseOr loads) none ≠ some (some result) := by
  induction terms with
  | nil => exact fun h => nomatch h
  | cons term terms ih =>
    rw [List.foldlM_cons]
    have hstep : parseOr loads none term = none ∨ parseOr loads none term = some none := by
      rw [parseOr]
      cases parseTerm loads term with
      | none => exact .inl rfl
      | some r =>
        by_cases hr : r.length = 0
        · exact .inr (if_pos hr)
        · exact .inl (if_neg hr)
    rcases hstep with hstep | hstep <;> rw [hstep]
    · exact fun h => nomatch h
    · exact ih

/-- The loop ends with a list if every term has been read and none of them is empty. -/
theorem foldlM_parseOr_iff (terms : List Text) (acc result : List (List (MatchDict V))) :
    terms.foldlM (parseOr loads) (some acc) = some (some result) ↔
      ∃ read, result = acc ++ read ∧
        List.Forall₂ (fun term r => parseTerm loads term = some r ∧ r ≠ []) terms read := by
  induction terms generalizing acc with
  | nil =>
    rw [List.foldlM_nil]
    constructor
    · intro h
      exact ⟨[], by simpa using (Option.some.inj (Option.some.inj h)).symm, .nil⟩
    · intro ⟨read, hresult, hread⟩
      cases hread
      simp [hresult]
  | cons term terms ih =>
    rw [List.foldlM_cons, parseOr_some]
    constructor
    · intro h
      obtain ⟨acc', hacc, hrest⟩ := Option.bind_eq_some_iff.mp h
      obtain ⟨r, hr, rfl⟩ := Option.map_eq_some_iff.mp hacc
      split at hrest
      · exact absurd hrest (foldlM_parseOr_none loads terms result)
      · rename_i hne
        obtain ⟨read, rfl, hread⟩ := (ih (acc ++ [r])).mp hrest
        exact ⟨r :: read, by simp, .cons ⟨hr, hne⟩ hread⟩
    · intro ⟨read, hresult, hread⟩
      cases hread with
      | cons hfirst hread =>
        rename_i r read
        have hstep := (ih (acc ++ [r])).mpr ⟨read, by simp [hresult], hread⟩
        rw [hfirst.1, Option.map_some, if_neg hfirst.2]
        exact hstep

end Terms

-- ---------------------------------------------------------------------------
-- The query
-- ---------------------------------------------------------------------------

/-- No name or value has one of the words in it that the parser would take for an operator. -/
structure Cond.Survives (c : Cond) : Prop where
  or_free : ∀ t ∈ c.names ++ c.values, ¬ wordOR <:+: t
  and_free : ∀ t ∈ c.names ++ c.values, ¬ wordAND <:+: t
  names_contains_free : ∀ t ∈ c.names, ¬ wordCONTAINS <:+: t
  /-- Of a range, or where `CONTAINS` is the operator, a value may have it. -/
  values_contains_free : c.test.OneValue → ∀ t ∈ c.values, ¬ wordCONTAINS <:+: t

def Dnf.Survives (d : Dnf) : Prop := ∀ conds ∈ d.terms, ∀ c ∈ conds, c.Survives

theorem infix_render_iff {w : Text} (hne : w ≠ []) (hsep : ∀ d ∈ signs, d ∉ w) {e : Char}
    (he : e ∈ w) (hnot : e ∉ wordCONTAINS) (c : Cond) :
    w <:+: c.render ↔ ∃ t ∈ c.names ++ c.values, w <:+: t := by
  rw [Cond.render, infix_operator_iff hne hsep, infix_nameText_iff hsep,
    infix_valueText_iff hne hsep, or_iff_right (operator_free hsep he hnot c.test)]
  simp only [List.mem_append, or_and_right, exists_or]

theorem Cond.survives_iff_free (c : Cond) :
    c.Survives ↔ ¬ wordOR <:+: c.render ∧ c.AndContainsFree := by
  rw [Cond.AndContainsFree, infix_render_iff wordOR_ne_nil sign_not_mem_wordOR letter_mem_wordOR
      (by decide),
    infix_render_iff wordAND_ne_nil sign_not_mem_wordAND letter_mem_wordAND (by decide)]
  simp only [not_exists, not_and]
  exact ⟨fun h => ⟨h.or_free, h.and_free, h.names_contains_free, h.values_contains_free⟩,
    fun ⟨hor, hand, hnames, hvalues⟩ => ⟨hor, hand, hnames, hvalues⟩⟩

theorem or_free_renderTerm_iff (conds : List Cond) :
    ¬ wordOR <:+: renderTerm conds ↔ ∀ c ∈ conds, ¬ wordOR <:+: c.render := by
  have hword : ¬ wordOR <:+: wordAND := by
    have hletter : 'R' ∉ wordAND := by decide
    exact fun hword => hletter (hword.subset letter_mem_wordOR)
  rw [renderTerm, infix_joinWords_iff wordOR_ne_nil (by decide) hword]
  simp

/-- The pieces of the text are the terms, and each is read back on its own. -/
theorem forall₂_parseTerm_iff {V : Type} (J : JsonLoads V) {terms : List (List Cond)}
    (hne : ∀ conds ∈ terms, conds ≠ []) {texts : List Text}
    (htexts : List.Forall₂ (Padded ' ') texts (terms.map renderTerm)) :
    List.Forall₂ (fun term r => parseTerm J.loads term = some r ∧ r ≠ []) texts
        (terms.map fun conds => conds.map fun c => c.toMatch J.loads) ↔
      ∀ conds ∈ terms, ∀ c ∈ conds, c.AndContainsFree := by
  induction terms generalizing texts with
  | nil =>
    cases htexts
    simp
  | cons conds terms ih =>
    obtain ⟨hconds, hterms⟩ := List.forall_mem_cons.mp hne
    cases htexts with
    | cons hfirst htexts =>
      obtain ⟨i, j, rfl⟩ := hfirst
      have hread := parseMatches_term_iff J hconds i j
      rw [List.map_cons, List.forall₂_cons, ih hterms htexts, List.forall_mem_cons, ← hread]
      simp [parseTerm, parseMatches, hconds]

/-- A query is read back as it was written if and only if no name or value has `OR` or `AND`
in it, no name has `CONTAINS`, and no value that is tested for equality or for a prefix. -/
theorem parse_render_iff {V : Type} (J : JsonLoads V) (d : Dnf) :
    get_query_where J.loads d.render = some (some (d.toWhere J.loads)) ↔ d.Survives := by
  have hne : d.terms.map renderTerm ≠ [] := by simpa using d.terms_ne_nil
  have hpieces : (∀ conds ∈ d.terms, ∀ c ∈ conds, ¬ wordOR <:+: c.render) →
      List.Forall₂ (Padded ' ') (pieces wordOR d.render) (d.terms.map renderTerm) := by
    intro hor
    have hfree : ∀ x ∈ d.terms.map renderTerm, ¬ wordOR <:+: x := by
      simpa only [List.forall_mem_map, or_free_renderTerm_iff] using hor
    have hblank : ' ' ∉ wordOR := sign_not_mem_wordOR ' ' (by decide)
    have hall := pieces_intercalate wordOR_ne_nil hblank hne hfree 0 0
    simpa [Dnf.render] using hall
  have hsurvives : d.Survives ↔ (∀ conds ∈ d.terms, ∀ c ∈ conds, ¬ wordOR <:+: c.render) ∧
      ∀ conds ∈ d.terms, ∀ c ∈ conds, c.AndContainsFree := by
    simp only [Dnf.Survives, Cond.survives_iff_free, forall_and]
  rw [get_query_where, foldlM_parseOr_iff, hsurvives]
  constructor
  · intro ⟨read, hresult, hread⟩
    obtain rfl : d.toWhere J.loads = read := hresult
    -- as many terms have been read as there are
    have hlength : (pieces wordOR d.render).length = (d.terms.map renderTerm).length := by
      rw [hread.length_eq, Dnf.toWhere, List.length_map, List.length_map]
    have hor : ∀ conds ∈ d.terms, ∀ c ∈ conds, ¬ wordOR <:+: c.render := by
      have hfree := (free_of_length_pieces wordOR_ne_nil (by decide) hne).2 hlength
      simpa only [List.forall_mem_map, or_free_renderTerm_iff] using hfree
    exact ⟨hor, (forall₂_parseTerm_iff J d.conds_ne_nil (hpieces hor)).mp hread⟩
  · intro ⟨hor, hand⟩
    exact ⟨_, rfl, (forall₂_parseTerm_iff J d.conds_ne_nil (hpieces hor)).mpr hand⟩

/-- `sourcevn=ORANGE`, as a text where decoding gives the text. -/
def orangeVn : Dnf where
  terms := [[
    { front := none
      name := ⟨"sourcevn".toList, by decide⟩
      test := .EQUAL ⟨"ORANGE".toList, by decide⟩ }]]
  terms_ne_nil := by decide
  conds_ne_nil := by simp

def loadsText : JsonLoads Text where
  loads := id
  keeps_and := fun s t _ h hand => by
    obtain rfl : s = t := h
    exact hand

/-- The value begins with `OR`: there is nothing after the `=` of the first term. -/
theorem orangeVn_not_read_back :
    ¬ ∀ (V : Type) (J : JsonLoads V) (d : Dnf),
      get_query_where J.loads d.render = some (some (d.toWhere J.loads)) := by
  intro h
  have hread := h Text loadsText orangeVn
  have hraises : get_query_where loadsText.loads orangeVn.render = none := by rfl
  rw [hraises] at hread
  cases hread

end TfAnalytics.OpServer.WhereText
