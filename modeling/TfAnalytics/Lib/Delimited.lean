import Mathlib.Data.List.Basic
import Mathlib.Data.List.Induction

/-!
# Fields joined by a delimiter

Several fields written one after the other with a delimiter between them can be
taken apart again as long as at most one of them contains the delimiter: from
the left when it is the last, from the right when it is the first. `splitMax` and
`rsplitMax` are Python's `split` and `rsplit` with a maximal number of cuts.

* `splitMax_joinBefore` / `rsplitMax_joinAfter`: cutting inverts joining;
* `length_splitMax`: how many parts there are;
* `joinBefore_inj` / `joinAfter_inj`: so joining loses nothing;
* `infix_intercalate_iff`: what has no delimiter in it occurs inside one field;
* `infix_keyed_iff`: a key with its value occurs in another as a last part of the key
  and a first part of the value.
-/

namespace TfAnalytics.Lib

variable {α : Type}

/-- The fields, a delimiter after each, and a last part. -/
def joinBefore (d : α) (fields : List (List α)) (rest : List α) : List α :=
  fields.foldr (fun f acc => f ++ d :: acc) rest

/-- A first part and the fields, a delimiter before each. -/
def joinAfter (d : α) (first : List α) (fields : List (List α)) : List α :=
  fields.foldl (fun acc f => acc ++ d :: f) first

theorem reverse_joinAfter (d : α) (first : List α) (fields : List (List α)) :
    (joinAfter d first fields).reverse =
      joinBefore d (fields.reverse.map List.reverse) first.reverse := by
  induction fields using List.reverseRecOn with
  | nil => rfl
  | append_singleton fields f ih =>
    have hlast : joinAfter d first (fields ++ [f]) = joinAfter d first fields ++ d :: f := by
      rw [joinAfter, List.foldl_append]
      rfl
    rw [hlast, List.reverse_append, List.reverse_cons, List.append_assoc, ih,
      List.reverse_append]
    rfl

-- ---------------------------------------------------------------------------
-- Where a text occurs
-- ---------------------------------------------------------------------------

/-- A text without the delimiter occurs before it or after it. -/
theorem infix_append_cons_iff {d : α} {p a b : List α} (hd : d ∉ p) :
    p <:+: a ++ d :: b ↔ p <:+: a ∨ p <:+: b := by
  rw [List.infix_append_iff]
  constructor
  · rintro (ha | hb | ⟨l, r, rfl, hl, hr⟩)
    · exact Or.inl ha
    · rcases List.infix_cons_iff.mp hb with hprefix | hinfix
      · rcases List.prefix_cons_iff.mp hprefix with rfl | ⟨t, rfl, -⟩
        · exact Or.inl List.nil_infix
        · exact absurd List.mem_cons_self hd
      · exact Or.inr hinfix
    · rcases List.prefix_cons_iff.mp hr with rfl | ⟨t, rfl, -⟩
      · rw [List.append_nil]
        exact Or.inl hl.isInfix
      · exact absurd (List.mem_append_right _ List.mem_cons_self) hd
  · rintro (ha | hb)
    · exact Or.inl ha
    · exact Or.inr (Or.inl (List.infix_cons hb))

theorem infix_intercalate_of_mem {part : List α} {parts : List (List α)} (h : part ∈ parts)
    (separator : List α) : part <:+: List.intercalate separator parts := by
  induction parts with
  | nil => cases h
  | cons first parts ih =>
    cases parts with
    | nil =>
      obtain rfl := List.mem_singleton.mp h
      simp
    | cons second parts =>
      rw [List.intercalate_cons_cons]
      rcases List.mem_cons.mp h with rfl | hrest
      · rw [List.append_assoc]
        exact (List.prefix_append _ _).isInfix
      · exact (ih hrest).trans (List.suffix_append _ _).isInfix

theorem infix_intercalate_iff {d : α} {p : List α} (hd : d ∉ p) (hp : p ≠ [])
    (parts : List (List α)) :
    p <:+: List.intercalate [d] parts ↔ ∃ part ∈ parts, p <:+: part := by
  induction parts with
  | nil => simp [hp]
  | cons part parts ih =>
    cases parts with
    | nil => simp
    | cons part' parts =>
      rw [List.intercalate_cons_cons, List.append_assoc, List.singleton_append,
        infix_append_cons_iff hd, ih]
      simp

theorem suffix_of_suffix_append_cons {d : α} {p a b : List α} (hd : d ∉ p)
    (h : p <:+ a ++ d :: b) : p <:+ b := by
  have hb : d :: b <:+ a ++ d :: b := List.suffix_append a (d :: b)
  rcases List.suffix_or_suffix_of_suffix h hb with hp | hp
  · rcases List.suffix_cons_iff.mp hp with rfl | hp
    · exact absurd List.mem_cons_self hd
    · exact hp
  · exact absurd (hp.subset List.mem_cons_self) hd

/-- What has `e` in it and no delimiter before that does not begin in front of the delimiter. -/
theorem infix_after_iff {d e : α} {p q a b : List α} (hd : d ∉ p) (hne : e ≠ d) (he : e ∉ a) :
    p ++ e :: q <:+: a ++ d :: b ↔ p ++ e :: q <:+: b := by
  constructor
  · rintro ⟨x, y, hxy⟩
    have hcut : (x ++ p) ++ e :: (q ++ y) = a ++ d :: b := by
      rw [← hxy]
      simp
    rcases List.append_eq_append_iff.mp hcut with ⟨c, rfl, hc⟩ | ⟨c, hc, hb⟩
    · cases c with
      | nil => exact absurd (List.cons.inj hc).1 hne
      | cons e' c =>
        obtain ⟨rfl, -⟩ := List.cons.inj hc
        exact absurd (List.mem_append_right _ List.mem_cons_self) he
    · cases c with
      | nil => exact absurd (List.cons.inj hb).1.symm hne
      | cons d' c =>
        obtain ⟨rfl, rfl⟩ := List.cons.inj hb
        obtain ⟨x', rfl⟩ := suffix_of_suffix_append_cons hd ⟨x, hc⟩
        exact ⟨x', y, by simp⟩
  · rintro ⟨x, y, rfl⟩
    exact ⟨a ++ d :: x, y, by simp⟩

/-- A key with its value occurs in a text where the text has a delimiter with the key
right before and the value right behind it. -/
theorem infix_iff_split {e : α} {p q t : List α} :
    p ++ e :: q <:+: t ↔ ∃ x y, t = x ++ e :: y ∧ p <:+ x ∧ q <+: y := by
  constructor
  · rintro ⟨x, y, rfl⟩
    exact ⟨x ++ p, q ++ y, by simp, List.suffix_append x p, List.prefix_append q y⟩
  · rintro ⟨_, _, rfl, ⟨x, rfl⟩, ⟨y, rfl⟩⟩
    exact ⟨x, y, by simp⟩

/-- A key and a value occur in another key and value. -/
theorem infix_keyed_iff {e : α} {p q a b : List α} (ha : e ∉ a) (hb : e ∉ b) :
    p ++ e :: q <:+: a ++ e :: b ↔ p <:+ a ∧ q <+: b := by
  constructor
  · rintro ⟨x, y, hxy⟩
    have hcut : a ++ e :: b = (x ++ p) ++ e :: (q ++ y) := by
      rw [← hxy]
      simp
    obtain ⟨rfl, -, rfl⟩ := (List.append_cons_inj_of_notMem ha hb).mp hcut
    exact ⟨⟨x, rfl⟩, ⟨y, rfl⟩⟩
  · rintro ⟨⟨x, rfl⟩, ⟨y, rfl⟩⟩
    exact ⟨x, y, by simp⟩

-- ---------------------------------------------------------------------------
-- Cutting
-- ---------------------------------------------------------------------------

variable [DecidableEq α]

/-- The parts before and after the first delimiter. -/
def splitFirst (d : α) : List α → Option (List α × List α)
  | [] => none
  | c :: cs => if c = d then some ([], cs) else (splitFirst d cs).map fun p => (c :: p.1, p.2)

/-- `split(d, n)`: at most `n` cuts, from the left. -/
def splitMax (d : α) : Nat → List α → List (List α)
  | 0, l => [l]
  | n + 1, l =>
    match splitFirst d l with
    | none => [l]
    | some (a, rest) => a :: splitMax d n rest

/-- `rsplit(d, n)`: at most `n` cuts, from the right. -/
def rsplitMax (d : α) (n : Nat) (l : List α) : List (List α) :=
  ((splitMax d n l.reverse).map List.reverse).reverse

theorem splitFirst_append {d : α} {f : List α} (hf : d ∉ f) (rest : List α) :
    splitFirst d (f ++ d :: rest) = some (f, rest) := by
  induction f with
  | nil => simp [splitFirst]
  | cons c f ih =>
    rw [List.mem_cons, not_or] at hf
    rw [List.cons_append, splitFirst, if_neg (Ne.symm hf.1), ih hf.2, Option.map_some]

theorem eq_append_of_splitFirst {d : α} {l f rest : List α} (h : splitFirst d l = some (f, rest)) :
    l = f ++ d :: rest ∧ d ∉ f := by
  induction l generalizing f with
  | nil => cases h
  | cons c cs ih =>
    rw [splitFirst] at h
    split at h
    · rename_i hc
      obtain ⟨rfl, rfl⟩ := Prod.mk.inj (Option.some.inj h)
      exact ⟨hc ▸ rfl, List.not_mem_nil⟩
    · rename_i hc
      obtain ⟨⟨f', rest'⟩, hsplit, heq⟩ := Option.map_eq_some_iff.mp h
      obtain ⟨rfl, rfl⟩ := Prod.mk.inj heq
      obtain ⟨rfl, hnot⟩ := ih hsplit
      exact ⟨rfl, fun hmem => (List.mem_cons.mp hmem).elim (fun hd => hc hd.symm) hnot⟩

theorem splitFirst_eq_none_iff {d : α} {l : List α} : splitFirst d l = none ↔ d ∉ l := by
  induction l with
  | nil => simp [splitFirst]
  | cons c cs ih =>
    rw [splitFirst, List.mem_cons, not_or, ← ih]
    by_cases hc : c = d
    · simp [hc]
    · simp [hc, Ne.symm hc]

/-- One part more than there are cuts. -/
theorem length_splitMax (d : α) (n : Nat) :
    ∀ l : List α, (splitMax d n l).length = min n (l.count d) + 1 := by
  induction n with
  | zero =>
    intro l
    rw [splitMax, Nat.zero_min]
    rfl
  | succ n ih =>
    intro l
    rw [splitMax]
    cases hcut : splitFirst d l with
    | none =>
      rw [List.count_eq_zero.mpr (splitFirst_eq_none_iff.mp hcut)]
      rfl
    | some cut =>
      obtain ⟨hl, hfree⟩ : l = cut.1 ++ d :: cut.2 ∧ d ∉ cut.1 := eq_append_of_splitFirst hcut
      have hcount : l.count d = cut.2.count d + 1 := by
        rw [hl, List.count_append, List.count_eq_zero.mpr hfree, List.count_cons_self, Nat.zero_add]
      simp only [List.length_cons, ih, hcount]
      omega

/-- What is between two delimiters is of the text. -/
theorem mem_of_mem_splitOn {d c : α} {l part : List α} (hpart : part ∈ l.splitOn d)
    (hc : c ∈ part) : c ∈ l := by
  induction l generalizing part with
  | nil => simp_all
  | cons x l ih =>
    rw [List.splitOn_cons_eq_if_modifyHead] at hpart
    by_cases hx : x = d
    · rw [if_pos (beq_iff_eq.mpr hx)] at hpart
      rcases List.mem_cons.mp hpart with rfl | hpart
      · nomatch hc
      · exact List.mem_cons_of_mem x (ih hpart hc)
    · rw [if_neg (mt beq_iff_eq.mp hx)] at hpart
      cases hl : l.splitOn d with
      | nil => simp [hl] at hpart
      | cons first rest =>
        rw [hl, List.modifyHead_cons] at hpart
        rcases List.mem_cons.mp hpart with rfl | hpart
        · rcases List.mem_cons.mp hc with rfl | hc
          · exact List.mem_cons_self
          · exact List.mem_cons_of_mem x (ih (hl ▸ List.mem_cons_self) hc)
        · exact List.mem_cons_of_mem x (ih (hl ▸ List.mem_cons_of_mem first hpart) hc)

/-- What is between two delimiters has none in it. -/
theorem not_mem_of_mem_splitOn {d : α} {l : List α} :
    ∀ part ∈ l.splitOn d, d ∉ part := by
  induction l with
  | nil => simp
  | cons c cs ih =>
    rw [List.splitOn_cons_eq_if_modifyHead]
    by_cases hc : c = d
    · rw [if_pos (beq_iff_eq.mpr hc)]
      exact List.forall_mem_cons.mpr ⟨List.not_mem_nil, ih⟩
    · rw [if_neg (mt beq_iff_eq.mp hc)]
      cases hcs : cs.splitOn d with
      | nil => simp
      | cons part parts =>
        rw [hcs, List.forall_mem_cons] at ih
        rw [List.modifyHead_cons, List.forall_mem_cons]
        refine ⟨fun hmem => ?_, ih.2⟩
        rcases List.mem_cons.mp hmem with hd | hd
        · exact hc hd.symm
        · exact ih.1 hd

/-- Cuts at runs of delimiters: parts that are empty are left out, but for the first and the
last. -/
def splitCompress (d : α) (l : List α) : List (List α) :=
  match l.splitOn d with
  | [] => []
  | first :: rest => first :: (rest.dropLast.filter (· ≠ []) ++ rest.getLast?.toList)

theorem mem_splitOn_of_mem_splitCompress {d : α} {l part : List α}
    (hpart : part ∈ splitCompress d l) : part ∈ l.splitOn d := by
  unfold splitCompress at hpart
  split at hpart
  · cases hpart
  · rename_i first rest hsplit
    rw [hsplit]
    rcases List.mem_cons.mp hpart with rfl | hpart
    · exact List.mem_cons_self
    · refine List.mem_cons_of_mem first ?_
      rcases List.mem_append.mp hpart with hpart | hpart
      · exact List.dropLast_subset _ (List.mem_filter.mp hpart).1
      · exact List.mem_of_getLast? (Option.mem_toList.mp hpart)

/-- Of joined fields the empty ones in the middle are lost. -/
theorem splitCompress_intercalate {d : α} {first last : List α} {middle : List (List α)}
    (h : ∀ part ∈ first :: middle ++ [last], d ∉ part) :
    splitCompress d ([d].intercalate (first :: middle ++ [last])) =
      first :: (middle.filter (· ≠ []) ++ [last]) := by
  rw [splitCompress, List.splitOn_intercalate d h (by simp)]
  simp

theorem splitMax_joinBefore {d : α} {fields : List (List α)} (hfields : ∀ f ∈ fields, d ∉ f)
    (rest : List α) :
    splitMax d fields.length (joinBefore d fields rest) = fields ++ [rest] := by
  induction fields with
  | nil => rfl
  | cons f fields ih =>
    have ih := ih fun g hg => hfields g (List.mem_cons_of_mem f hg)
    have hf := splitFirst_append (hfields f List.mem_cons_self) (joinBefore d fields rest)
    rw [List.length_cons, splitMax, joinBefore, List.foldr_cons]
    rw [joinBefore] at hf ih
    simp only [hf, ih, List.cons_append]

theorem rsplitMax_joinAfter {d : α} {fields : List (List α)} (hfields : ∀ f ∈ fields, d ∉ f)
    (first : List α) :
    rsplitMax d fields.length (joinAfter d first fields) = first :: fields := by
  have hrev : ∀ f ∈ fields.reverse.map List.reverse, d ∉ f := by
    intro f hf
    obtain ⟨g, hg, rfl⟩ := List.mem_map.mp hf
    rw [List.mem_reverse] at hg ⊢
    exact hfields g hg
  have hlen : fields.length = (fields.reverse.map List.reverse).length := by simp
  have hback : (fields.reverse.map List.reverse).map List.reverse = fields.reverse := by
    rw [List.map_map]
    exact (List.map_congr_left fun f _ => List.reverse_reverse f).trans (List.map_id _)
  rw [rsplitMax, reverse_joinAfter, hlen, splitMax_joinBefore hrev, List.map_append, hback]
  simp

theorem joinBefore_inj {d : α} {fields fields' : List (List α)} {rest rest' : List α}
    (hfields : ∀ f ∈ fields, d ∉ f) (hfields' : ∀ f ∈ fields', d ∉ f)
    (hlen : fields.length = fields'.length)
    (h : joinBefore d fields rest = joinBefore d fields' rest') :
    fields = fields' ∧ rest = rest' := by
  have hsplit : fields ++ [rest] = fields' ++ [rest'] := by
    rw [← splitMax_joinBefore hfields, ← splitMax_joinBefore hfields', hlen, h]
  obtain ⟨hf, hr⟩ := List.append_inj hsplit hlen
  exact ⟨hf, List.head_eq_of_cons_eq hr⟩

theorem joinAfter_inj {d : α} {fields fields' : List (List α)} {first first' : List α}
    (hfields : ∀ f ∈ fields, d ∉ f) (hfields' : ∀ f ∈ fields', d ∉ f)
    (hlen : fields.length = fields'.length)
    (h : joinAfter d first fields = joinAfter d first' fields') :
    first = first' ∧ fields = fields' := by
  have hsplit : first :: fields = first' :: fields' := by
    rw [← rsplitMax_joinAfter hfields, ← rsplitMax_joinAfter hfields', hlen, h]
  exact List.cons.inj hsplit

end TfAnalytics.Lib
