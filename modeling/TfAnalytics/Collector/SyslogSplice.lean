import Mathlib
import TfAnalytics.Collector.SyslogGrammar

/-!
# Collector — a message that gets longer

`DecorateMsg` (structured_syslog_server.cc) makes a message longer behind the quote that closes its
last field. What `parse_syslog` (syslog_collector.cc) reads before the body depends on nothing
behind the first blank of the structured part, so only the body is another one.

* `LocalTo`: a token that reads nothing behind the quote;
* `parse_syslog_splice`: the longer message is accepted, and its fields are the same.
-/

namespace TfAnalytics.Collector

open TfAnalytics.Lib

-- ---------------------------------------------------------------------------
-- Tokens before a quote
-- ---------------------------------------------------------------------------

/-- The token is the same whatever stands behind the quote, and leaves a text of the second kind. -/
def LocalTo {β : Type} (P P' : Bytes → Prop) (read : Bytes → Option (β × Bytes)) : Prop :=
  ∀ u, P u → (∀ x, read (u ++ '"' :: x) = none) ∨
    ∃ b r, P' r ∧ ∀ x, read (u ++ '"' :: x) = some (b, r ++ '"' :: x)

/-- A bracket, and behind it a blank. -/
def Bracketed (u : Bytes) : Prop := ∃ a b, u = a ++ '[' :: b ∧ ' ' ∈ b

/-- What is not a bracket can be taken off the front. -/
def Stable (P : Bytes → Prop) : Prop := ∀ a r, '[' ∉ a → P (a ++ r) → P r

theorem stable_true : Stable fun _ => True := fun _ _ _ _ => trivial

theorem stable_bracketed : Stable Bracketed := by
  intro a r ha ⟨b, c, heq, hc⟩
  induction a generalizing b with
  | nil => exact ⟨b, c, heq, hc⟩
  | cons d a ih =>
    rw [List.mem_cons, not_or] at ha
    cases b with
    | nil => exact absurd (List.cons.inj heq).1.symm ha.1
    | cons e b => exact ih ha.2 b (List.cons.inj heq).2

theorem Bracketed.append {u : Bytes} (h : Bracketed u) (a : Bytes) : Bracketed (a ++ u) := by
  obtain ⟨b, c, rfl, hc⟩ := h
  exact ⟨a ++ b, c, (List.append_assoc _ _ _).symm, hc⟩

theorem Bracketed.blank_mem {u : Bytes} (h : Bracketed u) : ' ' ∈ u := by
  obtain ⟨a, b, rfl, hb⟩ := h
  exact List.mem_append_right a (List.mem_cons_of_mem _ hb)

/-- A character before which the reading stops anyway. -/
theorem whiles_append_cons {p : Char → Bool} {c : Char} (hp : p c = false) (u x : Bytes) :
    (u ++ c :: x).takeWhile p = u.takeWhile p ∧ (u ++ c :: x).dropWhile p = u.dropWhile p ++ c :: x := by
  induction u with
  | nil =>
    rw [List.nil_append, List.takeWhile_cons, List.dropWhile_cons, hp]
    exact ⟨rfl, rfl⟩
  | cons d u ih =>
    rw [List.cons_append, List.takeWhile_cons, List.takeWhile_cons, List.dropWhile_cons,
      List.dropWhile_cons]
    cases p d with
    | false => exact ⟨rfl, rfl⟩
    | true =>
      rw [ih.1, ih.2]
      exact ⟨rfl, rfl⟩

theorem whiles_append {p : Char → Bool} {u : Bytes} {c : Char} (hc : c ∈ u) (hp : p c = false)
    (x : Bytes) :
    (u ++ x).takeWhile p = u.takeWhile p ∧ (u ++ x).dropWhile p = u.dropWhile p ++ x := by
  obtain ⟨a, b, rfl⟩ := List.append_of_mem hc
  obtain ⟨htake, hdrop⟩ := whiles_append_cons hp a b
  obtain ⟨htake', hdrop'⟩ := whiles_append_cons hp a (b ++ x)
  rw [List.append_assoc, List.cons_append, htake, hdrop, htake', hdrop', List.append_assoc]
  exact ⟨rfl, rfl⟩

theorem skip_append_quote (u x : Bytes) : skip (u ++ '"' :: x) = skip u ++ '"' :: x :=
  (whiles_append_cons (by decide) u x).2

theorem not_mem_takeWhile {p : Char → Bool} {c : Char} (hp : p c = false) (u : Bytes) :
    c ∉ u.takeWhile p := by
  intro hc
  rw [List.mem_takeWhile_imp hc] at hp
  cases hp

/-- `skip`, `dropWhile` over characters that are no bracket. -/
theorem Stable.dropWhile {P : Bytes → Prop} (hP : Stable P) {p : Char → Bool} (hp : p '[' = false)
    {u : Bytes} (h : P u) : P (u.dropWhile p) := by
  refine hP (u.takeWhile p) _ (not_mem_takeWhile hp u) ?_
  rwa [List.takeWhile_append_dropWhile]

theorem Stable.skip {P : Bytes → Prop} (hP : Stable P) {u : Bytes} (h : P u) : P (skip u) :=
  hP.dropWhile (by decide) h

theorem splitSign_append (u x : Bytes) :
    splitSign (u ++ '"' :: x) = ((splitSign u).1, (splitSign u).2 ++ '"' :: x) := by
  cases u with
  | nil => rfl
  | cons c u =>
    by_cases hminus : c = '-'
    · subst hminus
      rfl
    · by_cases hplus : c = '+'
      · subst hplus
        rfl
      · have hplain : ∀ rest, splitSign (c :: rest) = (false, c :: rest) := by
          intro rest
          rw [splitSign]
          · exact fun _ heq => hminus (List.cons.inj heq).1
          · exact fun _ heq => hplus (List.cons.inj heq).1
        rw [List.cons_append, hplain, hplain]
        rfl

theorem Stable.splitSign {P : Bytes → Prop} (hP : Stable P) {u : Bytes} (h : P u) :
    P (splitSign u).2 := by
  unfold Collector.splitSign
  split
  · exact hP ['-'] _ (by decide) h
  · exact hP ['+'] _ (by decide) h
  · exact h

theorem local_int_ {P : Bytes → Prop} (hP : Stable P) : LocalTo P P int_ := by
  intro u hu
  have hnumber : ∀ x, splitNumber (skip (u ++ '"' :: x)) =
      (splitNumber (skip u)).map fun r => (r.1, r.2 ++ '"' :: x) := by
    intro x
    obtain ⟨htake, hdrop⟩ := whiles_append_cons
      (show Char.isDigit '"' = false by decide) (splitSign (skip u)).2 x
    rw [skip_append_quote, splitNumber, splitNumber, splitSign_append]
    simp only [htake, hdrop]
    split <;> rfl
  cases hread : splitNumber (skip u) with
  | none =>
    refine .inl fun x => ?_
    rw [int_, hnumber, hread]
    rfl
  | some r =>
    obtain ⟨n, rest⟩ := r
    by_cases hrange : -2 ^ 31 ≤ n ∧ n < 2 ^ 31
    · refine .inr ⟨n, rest, ?_, fun x => ?_⟩
      · rw [splitNumber] at hread
        split at hread
        · cases hread
        · simp only [Option.some.injEq, Prod.mk.injEq] at hread
          rw [← hread.2]
          exact hP.dropWhile (by decide) (hP.splitSign (hP.skip hu))
      · rw [int_, hnumber, hread]
        exact Option.filter_some_pos (decide_eq_true hrange)
    · refine .inl fun x => ?_
      rw [int_, hnumber, hread]
      exact Option.filter_some_neg (by simpa using hrange)

theorem prefix_append_quote {s : Bytes} (hs : '"' ∉ s) (u x : Bytes) :
    s <+: u ++ '"' :: x ↔ s <+: u := by
  refine ⟨fun h => ?_, fun h => h.trans (List.prefix_append u _)⟩
  rcases List.prefix_or_prefix_of_prefix h (List.prefix_append u ('"' :: x)) with hsu | ⟨t, rfl⟩
  · exact hsu
  · rw [List.prefix_append_right_inj] at h
    cases t with
    | nil => exact ⟨[], by rw [List.append_nil, List.append_nil]⟩
    | cons c t =>
      obtain rfl := (List.cons_prefix_cons.mp h).1
      exact absurd (List.mem_append_right u List.mem_cons_self) hs

/-- A literal of the grammar; `P'` may fail to hold behind a bracket. -/
theorem local_lit {P P' : Bytes → Prop} {s : Bytes} (hs : '"' ∉ s)
    (hP : ∀ u r, P u → skip u = s ++ r → P' r) : LocalTo P P' (lit s) := by
  intro u hu
  by_cases hread : s <+: skip u
  · obtain ⟨r, hr⟩ := hread
    refine .inr ⟨(), r, hP u r hu hr.symm, fun x => ?_⟩
    rw [lit, skip_append_quote, if_pos ((prefix_append_quote hs _ x).mpr ⟨r, hr⟩), ← hr,
      List.append_assoc, List.drop_left]
  · refine .inl fun x => ?_
    rw [lit, skip_append_quote, if_neg (mt (prefix_append_quote hs _ x).mp hread)]

theorem local_lit_stable {P : Bytes → Prop} (hP : Stable P) {s : Bytes} (hs : '"' ∉ s)
    (hs' : '[' ∉ s) : LocalTo P P (lit s) :=
  local_lit hs fun _ r hu heq => hP s r hs' (heq ▸ hP.skip hu)

theorem months_eq (text : Bytes) : months text =
    monthNames.findSome? fun month => (lit month.1.toList text).map fun r => (month.2, r.2) := by
  rw [months]
  refine congrArg (List.findSome? · monthNames) (funext fun month => ?_)
  rw [lit]
  split <;> rfl

theorem local_months {P : Bytes → Prop} (hP : Stable P) : LocalTo P P months := by
  have hnames : ∀ month ∈ monthNames, '"' ∉ month.1.toList ∧ '[' ∉ month.1.toList := by decide
  intro u hu
  simp only [months_eq]
  generalize monthNames = names at hnames ⊢
  induction names with
  | nil => exact .inl fun _ => rfl
  | cons month names ih =>
    rw [List.forall_mem_cons] at hnames
    simp only [List.findSome?_cons]
    rcases local_lit_stable hP hnames.1.1 hnames.1.2 u hu with hnone | ⟨b, r, hr, hsome⟩
    · simp only [hnone, Option.map_none]
      exact ih hnames.2
    · exact .inr ⟨month.2, r, hr, fun x => by rw [hsome]; rfl⟩

/-- A word that ends at a blank, before the bracket or behind it. -/
theorem local_word {p : Char → Bool} (hp : p ' ' = false) {P' : Bytes → Prop}
    (hP' : ∀ u, Bracketed u → P' (u.dropWhile p)) : LocalTo Bracketed P' (word p) := by
  intro u hu
  have hskip : Bracketed (skip u) := stable_bracketed.skip hu
  by_cases hnil : (skip u).takeWhile p = []
  · refine .inl fun x => ?_
    obtain ⟨htake, -⟩ := whiles_append hskip.blank_mem hp ('"' :: x)
    rw [word, skip_append_quote, htake, if_pos hnil]
  · refine .inr ⟨(skip u).takeWhile p, (skip u).dropWhile p, hP' _ hskip, fun x => ?_⟩
    obtain ⟨htake, hdrop⟩ := whiles_append hskip.blank_mem hp ('"' :: x)
    rw [word, skip_append_quote, htake, hdrop, if_neg hnil]

theorem local_wordBlank {p : Char → Bool} (hp : p ' ' = false) (hp' : p '[' = false) :
    LocalTo Bracketed Bracketed (wordBlank p) := by
  intro u hu
  rcases local_word hp (fun u hu => stable_bracketed.dropWhile hp' hu) u hu with
    hnone | ⟨b, r, hr, hsome⟩
  · exact .inl fun x => by rw [wordBlank, hnone x]; rfl
  · obtain ⟨c, r, rfl⟩ := List.exists_cons_of_ne_nil (List.ne_nil_of_mem hr.blank_mem)
    by_cases hc : c = ' '
    · subst hc
      refine .inr ⟨b, r, stable_bracketed [' '] r (by decide) hr, fun x => ?_⟩
      rw [wordBlank, hsome x]
      rfl
    · refine .inl fun x => ?_
      rw [wordBlank, hsome x]
      simp [hc]

-- ---------------------------------------------------------------------------
-- The grammar on two messages
-- ---------------------------------------------------------------------------

/-- The maps have the same fields, but for some keys. -/
def SameBut (keys : List String) (v₁ v₂ : SyslogMap) : Prop :=
  ∀ key, key ∉ keys → v₁.find? key = v₂.find? key

theorem SameBut.insert {keys : List String} {v₁ v₂ : SyslogMap} (h : SameBut keys v₁ v₂)
    (key : String) (x : Holder) : SameBut keys (v₁.insert key x) (v₂.insert key x) := by
  intro key' hkey'
  rw [OrderedMap.find?_insert, OrderedMap.find?_insert]
  by_cases heq : key' = key
  · rw [if_pos heq, if_pos heq, ← heq, h key' hkey']
  · rw [if_neg heq, if_neg heq, h key' hkey']

theorem SameBut.erase {keys : List String} {v₁ v₂ : SyslogMap} (h : SameBut keys v₁ v₂)
    (key : String) : SameBut keys (v₁.erase key) (v₂.erase key) := by
  intro key' hkey'
  rw [OrderedMap.find?_erase, OrderedMap.find?_erase, h key' hkey']

theorem SameBut.erased {keys : List String} {key : String} {v₁ v₂ : SyslogMap}
    (h : SameBut (key :: keys) v₁ v₂) : SameBut keys (v₁.erase key) (v₂.erase key) := by
  intro key' hkey'
  rw [OrderedMap.find?_erase, OrderedMap.find?_erase]
  by_cases heq : key' = key
  · rw [if_pos heq, if_pos heq]
  · rw [if_neg heq, if_neg heq]
    exact h key' fun hmem => (List.mem_cons.mp hmem).elim heq hkey'

/-- Two texts that go on differently behind a quote. -/
def Cut (P : Bytes → Prop) (x₁ x₂ t₁ t₂ : Bytes) : Prop :=
  ∃ u, P u ∧ t₁ = u ++ '"' :: x₁ ∧ t₂ = u ++ '"' :: x₂

/-- A text before the quote is left. -/
def LeftBefore (P : Bytes → Prop) (x₁ r : Bytes) : Prop := ∃ u, P u ∧ r = u ++ '"' :: x₁

section Tandem

variable {keys : List String} {P P' : Bytes → Prop} {x₁ x₂ : Bytes}

theorem LocalTo.tandem {β : Type} {read : Bytes → Option (β × Bytes)} (h : LocalTo P P' read)
    {act : SyslogMap → β → SyslogMap}
    (hact : ∀ v₁ v₂ b, SameBut keys v₁ v₂ → SameBut keys (act v₁ b) (act v₂ b)) :
    Phrase.Tandem (SameBut keys) (Cut P x₁ x₂) (Cut P' x₁ x₂) (Phrase.token read act) := by
  refine .token (fun t₁ t₂ ht => ?_) hact
  obtain ⟨u, hu, rfl, rfl⟩ := ht
  rcases h u hu with hnone | ⟨b, r, hr, hsome⟩
  · exact .inl ⟨hnone x₁, hnone x₂⟩
  · exact .inr ⟨b, _, _, hsome x₁, hsome x₂, r, hr, rfl, rfl⟩

theorem tandem_intField (hP : Stable P) (key : String) :
    Phrase.Tandem (SameBut keys) (Cut P x₁ x₂) (Cut P x₁ x₂) (intField key int_) :=
  (local_int_ hP).tandem fun _ _ n h => h.insert key (.int n)

theorem tandem_litPhrase (hP : Stable P) {s : String} (hs : '"' ∉ s.toList) (hs' : '[' ∉ s.toList) :
    Phrase.Tandem (SameBut keys) (Cut P x₁ x₂) (Cut P x₁ x₂) (litPhrase s) :=
  (local_lit_stable hP hs hs').tandem fun _ _ _ h => h

theorem tandem_word {p : Char → Bool} (hp : p ' ' = false) (key : String) :
    Phrase.Tandem (SameBut keys) (Cut Bracketed x₁ x₂) (Cut (fun _ => True) x₁ x₂)
      (textField key (word p)) :=
  (local_word hp fun _ _ => trivial).tandem fun _ _ s h => h.insert key (.str s)

theorem tandem_bsdHeader :
    Phrase.Tandem (SameBut keys) (Cut Bracketed x₁ x₂) (Cut Bracketed x₁ x₂) bsdHeader := by
  have hP := stable_bracketed
  have hmonth : Phrase.Tandem (SameBut keys) (Cut Bracketed x₁ x₂) (Cut Bracketed x₁ x₂)
      (intField "month" months) :=
    (local_months hP).tandem fun _ _ n h => h.insert "month" (.int n)
  have hcolon : Phrase.Tandem (SameBut keys) (Cut Bracketed x₁ x₂) (Cut Bracketed x₁ x₂)
      (litPhrase ":") := tandem_litPhrase hP (by decide) (by decide)
  have hhost : Phrase.Tandem (SameBut keys) (Cut Bracketed x₁ x₂) (Cut Bracketed x₁ x₂)
      (textField "hostname" (wordBlank fun c => c ≠ '[' && c ≠ ' ' && c ≠ ':')) :=
    (local_wordBlank (by decide) (by decide)).tandem fun _ _ s h => h.insert "hostname" (.str s)
  exact .seq_cons hmonth (.seq_cons (tandem_intField hP "day") (.seq_cons (tandem_intField hP "hour")
    (.seq_cons hcolon (.seq_cons (tandem_intField hP "min") (.seq_cons hcolon
      (.seq_cons (tandem_intField hP "sec") (.seq_cons hhost.opt .seq_nil)))))))

theorem tandem_progTag :
    Phrase.Tandem (SameBut keys) (Cut Bracketed x₁ x₂) (Cut (fun _ => True) x₁ x₂) progTag := by
  have hword : Phrase.Tandem (SameBut keys) (Cut Bracketed x₁ x₂) (Cut Bracketed x₁ x₂)
      (textField "prog" (word fun c => c ≠ '[' && c ≠ ' ' && c ≠ ':')) :=
    (local_word (by decide) fun _ hu => stable_bracketed.dropWhile (by decide) hu).tandem
      fun _ _ s h => h.insert "prog" (.str s)
  have hopen : Phrase.Tandem (SameBut keys) (Cut Bracketed x₁ x₂) (Cut (fun _ => True) x₁ x₂)
      (litPhrase "[") :=
    (local_lit (by decide) fun _ _ _ _ => trivial).tandem fun _ _ _ h => h
  have hprog : Phrase.Tandem (SameBut keys) (Cut Bracketed x₁ x₂) (Cut (fun _ => True) x₁ x₂)
      (progField fun c => c ≠ ':' && c ≠ ' ') :=
    (local_word (by decide) fun _ _ => trivial).tandem
      fun _ _ s h => (h.insert "prog" (.str s)).insert "pid" (.int (-1))
  have hclose : ∀ s ∈ ["]:", ":", "-"],
      Phrase.Tandem (SameBut keys) (Cut (fun _ => True) x₁ x₂) (Cut (fun _ => True) x₁ x₂)
        (litPhrase s) := by
    have hplain : ∀ s ∈ ["]:", ":", "-"], '"' ∉ s.toList ∧ '[' ∉ s.toList := by decide
    exact fun s hs => tandem_litPhrase stable_true (hplain s hs).1 (hplain s hs).2
  exact .alt (.seq_cons hword (.seq_cons hopen (.seq_cons (tandem_intField stable_true "pid")
      (.seq_cons (hclose _ (by decide)) .seq_nil))))
    (.alt (.seq_cons hprog (.seq_cons (hclose _ (by decide)) .seq_nil))
      (.seq_cons hprog (.seq_cons (hclose _ (by decide)) .seq_nil)))

end Tandem

-- ---------------------------------------------------------------------------
-- What is left of a text
-- ---------------------------------------------------------------------------

theorem skip_suffix (text : Bytes) : skip text <:+ text := List.dropWhile_suffix _

theorem shrinks_intField (key : String) : Phrase.Shrinks (intField key int_) := by
  refine .token fun text n rest h => ?_
  have hnumber := (Option.filter_eq_some_iff.mp h).1
  rw [splitNumber] at hnumber
  split at hnumber
  · cases hnumber
  · simp only [Option.some.injEq, Prod.mk.injEq] at hnumber
    have hsign : (splitSign (skip text)).2 <:+ skip text := by
      unfold splitSign
      split
      · rename_i heq
        exact heq ▸ List.suffix_cons _ _
      · rename_i heq
        exact heq ▸ List.suffix_cons _ _
      · exact List.suffix_rfl
    rw [← hnumber.2]
    exact ((List.dropWhile_suffix _).trans hsign).trans (skip_suffix text)

theorem lit_suffix {s text rest : Bytes} {b : Unit} (h : lit s text = some (b, rest)) :
    rest <:+ text := by
  unfold lit at h
  split at h
  · cases h
    exact (List.drop_suffix _ _).trans (skip_suffix text)
  · cases h

theorem shrinks_litPhrase (s : String) : Phrase.Shrinks (litPhrase s) :=
  .token fun _ _ _ h => lit_suffix h

theorem word_suffix {p : Char → Bool} {text s rest : Bytes} (h : word p text = some (s, rest)) :
    rest <:+ text := by
  unfold word at h
  split at h
  · cases h
  · cases h
    exact (List.dropWhile_suffix _).trans (skip_suffix text)

theorem wordBlank_suffix {p : Char → Bool} {text s rest : Bytes}
    (h : wordBlank p text = some (s, rest)) : rest <:+ text := by
  obtain ⟨⟨s', rest'⟩, hread, h⟩ := Option.bind_eq_some_iff.mp h
  dsimp only at h
  split at h
  · cases h
    exact (List.suffix_cons _ _).trans (word_suffix hread)
  · cases h

theorem months_suffix {text rest : Bytes} {n : Int} (h : months text = some (n, rest)) :
    rest <:+ text := by
  rw [months_eq] at h
  obtain ⟨month, -, hread⟩ := List.exists_of_findSome?_eq_some h
  obtain ⟨⟨b, r⟩, hlit, h⟩ := Option.map_eq_some_iff.mp hread
  cases h
  exact lit_suffix hlit

theorem shrinks_header : Phrase.Shrinks (Phrase.alt bsdHeader isoHeader) := by
  have hmonth : Phrase.Shrinks (intField "month" months) := .token fun _ _ _ h => months_suffix h
  have hhost : Phrase.Shrinks
      (textField "hostname" (wordBlank fun c => c ≠ '[' && c ≠ ' ' && c ≠ ':')) :=
    .token fun _ _ _ h => wordBlank_suffix h
  have hword : ∀ key, Phrase.Shrinks (textField key (word fun c => c ≠ ' ')) :=
    fun key => .token fun _ _ _ h => word_suffix h
  have hzone := Phrase.Shrinks.alt (shrinks_litPhrase "Z") (hword "tz")
  refine .alt (.seq ?_) (.seq ?_)
  · simp only [List.forall_mem_cons, shrinks_intField, shrinks_litPhrase, List.not_mem_nil,
      false_implies, implies_true, and_true, true_and]
    exact ⟨hmonth, hhost.opt⟩
  · simp only [List.forall_mem_cons, shrinks_intField, shrinks_litPhrase, List.not_mem_nil,
      false_implies, implies_true, and_true, true_and]
    exact ⟨hzone, hword "hostname"⟩

theorem shrinks_progTag : Phrase.Shrinks progTag := by
  have hword : Phrase.Shrinks (textField "prog" (word fun c => c ≠ '[' && c ≠ ' ' && c ≠ ':')) :=
    .token fun _ _ _ h => word_suffix h
  have hprog : Phrase.Shrinks (progField fun c => c ≠ ':' && c ≠ ' ') :=
    .token fun _ _ _ h => word_suffix h
  refine .alt (.seq ?_) (.alt (.seq ?_) (.seq ?_))
  · simp only [List.forall_mem_cons, shrinks_intField, shrinks_litPhrase, List.not_mem_nil,
      false_implies, implies_true, and_true]
    exact hword
  · simp only [List.forall_mem_cons, shrinks_litPhrase, List.not_mem_nil, false_implies,
      implies_true, and_true]
    exact hprog
  · simp only [List.forall_mem_cons, shrinks_litPhrase, List.not_mem_nil, false_implies,
      implies_true, and_true]
    exact hprog

-- ---------------------------------------------------------------------------
-- The longer message
-- ---------------------------------------------------------------------------

section Longer

variable {keys : List String} {x₁ x₂ : Bytes}

theorem suffix_of_quote {b u : Bytes} (h : b ++ '"' :: x₁ <:+ u ++ '"' :: x₁) : b <:+ u := by
  obtain ⟨a, ha⟩ := h
  rw [← List.append_assoc] at ha
  exact ⟨a, List.append_cancel_right ha⟩

theorem Bracketed.of_suffix {b u : Bytes} (hb : Bracketed b) (h : b <:+ u) : Bracketed u := by
  obtain ⟨a, rfl⟩ := h
  exact hb.append a

/-- The zone and the hostname can end behind the bracket, but then the body is lost. -/
theorem follows_isoHeader :
    Phrase.Follows (SameBut keys) (Cut Bracketed x₁ x₂) (LeftBefore Bracketed x₁) isoHeader := by
  have hP := stable_bracketed
  have hzone : Phrase.Tandem (SameBut keys) (Cut Bracketed x₁ x₂) (Cut (fun _ => True) x₁ x₂)
      (Phrase.alt (litPhrase "Z") (textField "tz" (word fun c => c ≠ ' '))) :=
    .alt ((local_lit (by decide) fun _ _ _ _ => trivial).tandem fun _ _ _ h => h)
      (tandem_word (by decide) "tz")
  have hlast : Phrase.Follows (SameBut keys) (Cut Bracketed x₁ x₂) (LeftBefore Bracketed x₁)
      (Phrase.seq [Phrase.alt (litPhrase "Z") (textField "tz" (word fun c => c ≠ ' ')),
        textField "hostname" (word fun c => c ≠ ' ')]) := by
    intro s₁ s₂ t₁ t₂ hs ht s₁' r₁ hrun hkept
    obtain ⟨_, _, h₁, -, -⟩ | ⟨_, _, _, _, h₁, h₂, hs', u, -, rfl, rfl⟩ := hzone s₁ s₂ t₁ t₂ hs ht
    · rw [Phrase.seq_cons_of_none h₁] at hrun
      cases hrun
    · rw [Phrase.seq_cons_of_some h₁] at hrun
      rw [Phrase.seq_cons_of_some h₂]
      obtain ⟨b, hb, rfl⟩ := hkept
      have hshrinks : Phrase.Shrinks (Phrase.seq [textField "hostname" (word fun c => c ≠ ' ')]) :=
        .seq (List.forall_mem_singleton.mpr (.token fun _ _ _ h => word_suffix h))
      have hu : Bracketed u := hb.of_suffix (suffix_of_quote (hshrinks _ _ _ _ hrun))
      have hhost : Phrase.Tandem (SameBut keys) (Cut Bracketed x₁ x₂) (Cut (fun _ => True) x₁ x₂)
          (Phrase.seq [textField "hostname" (word fun c => c ≠ ' ')]) :=
        .seq_cons (tandem_word (by decide) "hostname") .seq_nil
      obtain ⟨_, _, h, -, -⟩ | ⟨_, s₂', _, _, h, h₂', hs'', u', -, rfl, rfl⟩ :=
        hhost _ _ _ _ hs' ⟨u, hu, rfl, rfl⟩
      · rw [hrun] at h
        cases h
      · rw [hrun] at h
        obtain ⟨hstate, htext⟩ := Prod.mk.inj h
        have heq := List.append_cancel_right (Option.some.inj htext)
        subst hstate heq
        exact ⟨s₂', _, h₂', hs'', b, hb, rfl, rfl⟩
  have hlit : ∀ s ∈ ["-", "T", ":", "."], Phrase.Tandem (SameBut keys) (Cut Bracketed x₁ x₂)
      (Cut Bracketed x₁ x₂) (litPhrase s) := by
    have hplain : ∀ s ∈ ["-", "T", ":", "."], '"' ∉ s.toList ∧ '[' ∉ s.toList := by decide
    exact fun s hs => tandem_litPhrase hP (hplain s hs).1 (hplain s hs).2
  have hint : ∀ key, Phrase.Tandem (SameBut keys) (Cut Bracketed x₁ x₂) (Cut Bracketed x₁ x₂)
      (intField key int_) := tandem_intField hP
  exact .seq_cons (hint _) (.seq_cons (hint _) (.seq_cons (hlit _ (by decide)) (.seq_cons (hint _)
    (.seq_cons (hlit _ (by decide)) (.seq_cons (hint _) (.seq_cons (hlit _ (by decide))
      (.seq_cons (hint _) (.seq_cons (hlit _ (by decide)) (.seq_cons (hint _)
        (.seq_cons (hlit _ (by decide)) (.seq_cons (hint _) (.seq_cons (hlit _ (by decide))
          (.seq_cons (hint _) hlast)))))))))))))

/-- The fields before the body, with those the header has. -/
def beforeContent : List SyslogPhrase :=
  [litPhrase "<", intField "facsev" int_, litPhrase ">", Phrase.alt bsdHeader isoHeader]

theorem follows_beforeContent : Phrase.Follows (SameBut keys) (Cut Bracketed x₁ x₂)
    (LeftBefore Bracketed x₁) (Phrase.seq beforeContent) := by
  have hP := stable_bracketed
  exact .seq_cons (tandem_litPhrase hP (by decide) (by decide)) (.seq_cons (tandem_intField hP _)
    (.seq_cons (tandem_litPhrase hP (by decide) (by decide))
      (.seq_single (.alt tandem_bsdHeader follows_isoHeader))))

theorem shrinks_beforeContent : Phrase.Shrinks (Phrase.seq beforeContent) := by
  refine .seq ?_
  simp only [beforeContent, List.forall_mem_cons, List.not_mem_nil, false_implies, implies_true,
    and_true]
  exact ⟨shrinks_litPhrase _, shrinks_intField _, shrinks_litPhrase _, shrinks_header⟩

theorem beforeContent_body (v : SyslogMap) (text : Bytes) :
    (Phrase.seq beforeContent v text).1.find? "body" = v.find? "body" := by
  have hR : KeepsFields (SameAt "body") ["facsev", "month", "day", "hour", "min", "sec", "hostname",
      "version", "year", "msec", "tz"] := keepsFields_sameAt (by decide)
  refine Phrase.Always.seq hR.refl hR.trans ?_ v text
  simp only [beforeContent, List.forall_mem_cons, List.not_mem_nil, false_implies, implies_true,
    and_true]
  exact ⟨always_litPhrase hR _, always_int_ hR (by decide) (by decide), always_litPhrase hR _,
    .alt hR.trans (always_bsdHeader hR (by decide)) (always_isoHeader hR (by decide))⟩

end Longer

-- ---------------------------------------------------------------------------
-- The body
-- ---------------------------------------------------------------------------

theorem content_of_some {v v' : SyslogMap} {text rest : Bytes}
    (h : progTag v text = (v', some rest)) :
    content v text = (v'.insert "body" (.str (skip rest)), some []) := by
  have hseq : Phrase.seq [progTag, textField "body" bodyText] v text =
      (v'.insert "body" (.str (skip rest)), some []) := by
    rw [Phrase.seq_cons_of_some h]
    rfl
  exact Phrase.alt_of_some hseq _

theorem content_of_none {v v' : SyslogMap} {text : Bytes} (h : progTag v text = (v', none)) :
    content v text = (((v'.insert "prog" (.str [])).insert "pid" (.int (-1))).insert "body"
      (.str (skip text)), some []) := by
  have hseq : Phrase.seq [progTag, textField "body" bodyText] v text = (v', none) :=
    Phrase.seq_cons_of_none h _
  exact (Phrase.alt_of_none hseq _).trans rfl

theorem progTag_body {v v' : SyslogMap} {text : Bytes} {rest : Option Bytes}
    (h : progTag v text = (v', rest)) : v'.find? "body" = v.find? "body" := by
  have hR : KeepsFields (SameAt "body") ["prog", "pid"] := keepsFields_sameAt (by decide)
  have hsame := always_progTag hR (by decide) (by decide) v text
  rw [h] at hsame
  exact hsame

theorem find?_insert_body {v : SyslogMap} (h : v.find? "body" = none) (s : Bytes) :
    (v.insert "body" (.str s)).find? "body" = some (.str s) := by
  rw [OrderedMap.find?_insert, if_pos rfl, h]
  rfl

/-- The fields that stand for no program. -/
theorem find?_body_plain {v : SyslogMap} (h : v.find? "body" = none) :
    ((v.insert "prog" (.str [])).insert "pid" (.int (-1))).find? "body" = none := by
  rw [OrderedMap.find?_insert, if_neg (by decide), OrderedMap.find?_insert, if_neg (by decide), h]

theorem content_body {v v' : SyslogMap} {text rest : Bytes} (hv : v.find? "body" = none)
    (h : content v text = (v', some rest)) :
    ∃ body, body <:+ text ∧ v'.find? "body" = some (.str body) := by
  rcases htag : progTag v text with ⟨v'', _ | r⟩
  · have hnone : v''.find? "body" = none := (progTag_body htag).trans hv
    rw [content_of_none htag] at h
    cases h
    exact ⟨skip text, skip_suffix text, find?_insert_body (find?_body_plain hnone) _⟩
  · have hnone : v''.find? "body" = none := (progTag_body htag).trans hv
    rw [content_of_some htag] at h
    cases h
    exact ⟨skip r, (skip_suffix r).trans (shrinks_progTag _ _ _ _ htag),
      find?_insert_body hnone _⟩

section Splice

variable {keys : List String} {x₁ x₂ : Bytes}

theorem content_tandem {v₁ v₂ : SyslogMap} (hv : SameBut keys v₁ v₂) (h₁ : v₁.find? "body" = none)
    (h₂ : v₂.find? "body" = none) {u : Bytes} (hu : Bracketed u) :
    ∃ b v₁' v₂', content v₁ (u ++ '"' :: x₁) = (v₁', some []) ∧
      content v₂ (u ++ '"' :: x₂) = (v₂', some []) ∧ SameBut ("body" :: keys) v₁' v₂' ∧
      v₁'.find? "body" = some (.str (b ++ '"' :: x₁)) ∧
      v₂'.find? "body" = some (.str (b ++ '"' :: x₂)) := by
  have hbody : ∀ {v₁ v₂ : SyslogMap}, SameBut keys v₁ v₂ → ∀ s₁ s₂ : Bytes,
      SameBut ("body" :: keys) (v₁.insert "body" (.str s₁)) (v₂.insert "body" (.str s₂)) := by
    intro v₁ v₂ h s₁ s₂ key hkey
    rw [List.mem_cons, not_or] at hkey
    rw [OrderedMap.find?_insert, OrderedMap.find?_insert, if_neg hkey.1, if_neg hkey.1, h key hkey.2]
  obtain ⟨v₁', v₂', htag₁, htag₂, hv'⟩ | ⟨v₁', v₂', _, _, htag₁, htag₂, hv', u', -, rfl, rfl⟩ :=
    tandem_progTag v₁ v₂ _ _ hv ⟨u, hu, rfl, rfl⟩
  · refine ⟨skip u, _, _, content_of_none htag₁, content_of_none htag₂,
      hbody ((hv'.insert "prog" _).insert "pid" _) _ _, ?_, ?_⟩
    · rw [← skip_append_quote]
      exact find?_insert_body (find?_body_plain ((progTag_body htag₁).trans h₁)) _
    · rw [← skip_append_quote]
      exact find?_insert_body (find?_body_plain ((progTag_body htag₂).trans h₂)) _
  · refine ⟨skip u', _, _, content_of_some htag₁, content_of_some htag₂, hbody hv' _ _, ?_, ?_⟩
    · rw [← skip_append_quote]
      exact find?_insert_body ((progTag_body htag₁).trans h₁) _
    · rw [← skip_append_quote]
      exact find?_insert_body ((progTag_body htag₂).trans h₂) _

/-- From `<` on, a message and the longer one. -/
theorem beforeContent_splice {v₁ v₂ v : SyslogMap} (hv : SameBut keys v₁ v₂)
    (h₁ : v₁.find? "body" = none) (h₂ : v₂.find? "body" = none) {u b : Bytes} {rest : Bytes}
    (hrun : Phrase.seq (beforeContent ++ [content]) v₁ (u ++ '"' :: x₁) = (v, some rest))
    (hbody : v.find? "body" = some (.str (b ++ '"' :: x₁))) (hb : Bracketed b) :
    ∃ v', Phrase.seq (beforeContent ++ [content]) v₂ (u ++ '"' :: x₂) = (v', some []) ∧
      SameBut ("body" :: keys) v v' ∧ v'.find? "body" = some (.str (b ++ '"' :: x₂)) := by
  rcases hbefore : Phrase.seq beforeContent v₁ (u ++ '"' :: x₁) with ⟨v₁', _ | r₁⟩
  · rw [Phrase.seq_append_of_none hbefore] at hrun
    cases hrun
  · have h₁' : v₁'.find? "body" = none := by
      have hsame := beforeContent_body v₁ (u ++ '"' :: x₁)
      rw [hbefore] at hsame
      exact hsame.trans h₁
    have hcontent : content v₁' r₁ = (v, some rest) := by
      rw [Phrase.seq_append_of_some hbefore] at hrun
      rcases hread : content v₁' r₁ with ⟨w, _ | r⟩
      · rw [Phrase.seq_cons_of_none hread] at hrun
        cases hrun
      · rw [Phrase.seq_cons_of_some hread] at hrun
        exact hrun
    -- the body is what is left of the message
    obtain ⟨body, hsuffix, hsome⟩ := content_body h₁' hcontent
    rw [hbody] at hsome
    obtain rfl := Holder.str.inj (Option.some.inj hsome)
    obtain ⟨a, ha⟩ := hsuffix
    rw [← List.append_assoc] at ha
    have hkept : LeftBefore Bracketed x₁ r₁ := ⟨a ++ b, hb.append a, ha.symm⟩
    have hleft : a ++ b ++ '"' :: x₁ <:+ u ++ '"' :: x₁ := by
      rw [ha]
      exact shrinks_beforeContent _ _ _ _ hbefore
    have hu : Bracketed u := (hb.append a).of_suffix (suffix_of_quote hleft)
    obtain ⟨v₂', r₂, hbefore₂, hv', u₁, hu₁, rfl, rfl⟩ :=
      follows_beforeContent _ _ _ _ hv ⟨u, hu, rfl, rfl⟩ _ _ hbefore hkept
    have h₂' : v₂'.find? "body" = none := by
      have hsame := beforeContent_body v₂ (u ++ '"' :: x₂)
      rw [hbefore₂] at hsame
      exact hsame.trans h₂
    obtain ⟨b', w₁, w₂, hcontent₁, hcontent₂, hw, hw₁, hw₂⟩ := content_tandem hv' h₁' h₂' hu₁
    rw [hcontent] at hcontent₁
    obtain ⟨hstate, -⟩ := Prod.mk.inj hcontent₁
    subst hstate
    rw [hbody] at hw₁
    have hbodies := List.append_cancel_right (Holder.str.inj (Option.some.inj hw₁))
    subst hbodies
    refine ⟨w₂, ?_, hw, hw₂⟩
    rw [Phrase.seq_append_of_some hbefore₂, Phrase.seq_cons_of_some hcontent₂]
    rfl

end Splice

-- ---------------------------------------------------------------------------
-- The length in front
-- ---------------------------------------------------------------------------

theorem seq_lit_congr {s : String} {text text' : Bytes} (h : skip text = skip text')
    (ps : List SyslogPhrase) (v : SyslogMap) :
    Phrase.seq (litPhrase s :: ps) v text = Phrase.seq (litPhrase s :: ps) v text' := by
  have hread : lit s.toList text = lit s.toList text' := by rw [lit, lit, h]
  rw [Phrase.seq, Phrase.seq, litPhrase, Phrase.token, Phrase.token, hread]

theorem skip_append_blanks {blanks : Bytes} (h : ∀ c ∈ blanks, isSpace c = true) (text : Bytes) :
    skip (blanks ++ text) = skip text := List.dropWhile_append_of_pos h

theorem skip_of_head {text : Bytes} (h : (skip text).head? = some '<') :
    ∃ rest, skip text = '<' :: rest := by
  cases hskip : skip text with
  | nil =>
    rw [hskip] at h
    cases h
  | cons c rest =>
    rw [hskip] at h
    exact ⟨rest, by rw [Option.some.inj h]⟩

theorem int_of_head {text : Bytes} (h : (skip text).head? = some '<') : int_ text = none := by
  obtain ⟨rest, hskip⟩ := skip_of_head h
  have hnumber : splitNumber ('<' :: rest) = none := rfl
  rw [int_, hskip, hnumber]
  rfl

def priorityTail : List SyslogPhrase := [litPhrase "<", intField "facsev" int_, litPhrase ">"]

theorem syslogMessage_eq {v v' : SyslogMap} {text rest : Bytes}
    (h : priority v text = (v', some rest)) :
    syslogMessage v text = Phrase.seq [Phrase.alt bsdHeader isoHeader, content] v' rest :=
  Phrase.seq_cons_of_some h _

/-- A message without its length. -/
theorem syslogMessage_of_int_none {text : Bytes} (h : int_ text = none) (v : SyslogMap) :
    syslogMessage v text = Phrase.seq (beforeContent ++ [content]) v text := by
  have hfirst : Phrase.seq (intField "msglen" int_ :: priorityTail) v text = (v, none) :=
    Phrase.seq_cons_of_none (Phrase.token_of_none h v) _
  have hpriority : priority v text = Phrase.seq priorityTail v text := Phrase.alt_of_none hfirst _
  rcases htail : Phrase.seq priorityTail v text with ⟨v', _ | rest⟩
  · rw [htail] at hpriority
    have hrest := Phrase.seq_append_of_none htail [Phrase.alt bsdHeader isoHeader, content]
    exact (Phrase.seq_cons_of_none hpriority _).trans hrest.symm
  · rw [htail] at hpriority
    have hrest := Phrase.seq_append_of_some htail [Phrase.alt bsdHeader isoHeader, content]
    exact (syslogMessage_eq hpriority).trans hrest.symm

/-- A message with it: the text does not begin with `<`. -/
theorem syslogMessage_of_int_some {text rest : Bytes} {n : Int} (h : int_ text = some (n, rest))
    {v v' : SyslogMap} {left : Bytes} (hlt : ¬ ['<'] <+: skip text) :
    syslogMessage v text = (v', some left) ↔
      Phrase.seq (beforeContent ++ [content]) (v.insert "msglen" (.int n)) rest =
        (v', some left) := by
  have hfirst : Phrase.seq (intField "msglen" int_ :: priorityTail) v text =
      Phrase.seq priorityTail (v.insert "msglen" (.int n)) rest :=
    Phrase.seq_cons_of_some (Phrase.token_of_some h v) _
  rcases htail : Phrase.seq priorityTail (v.insert "msglen" (.int n)) rest with ⟨w, _ | r⟩
  · rw [htail] at hfirst
    have hlit : lit "<".toList text = none := if_neg hlt
    have hsecond : Phrase.seq priorityTail w text = (w, none) :=
      Phrase.seq_cons_of_none (Phrase.token_of_none hlit w) _
    have hpriority : priority v text = (w, none) := (Phrase.alt_of_none hfirst _).trans hsecond
    have hrest := Phrase.seq_append_of_none htail [Phrase.alt bsdHeader isoHeader, content]
    have hmessage : syslogMessage v text = (w, none) := Phrase.seq_cons_of_none hpriority _
    rw [hmessage]
    exact iff_of_eq (congrArg (· = (v', some left)) hrest.symm)
  · rw [htail] at hfirst
    have hpriority : priority v text = (w, some r) := Phrase.alt_of_some hfirst _
    have hrest := Phrase.seq_append_of_some htail [Phrase.alt bsdHeader isoHeader, content]
    rw [syslogMessage_eq hpriority]
    exact iff_of_eq (congrArg (· = (v', some left)) hrest.symm)

/-- A text whose first character that is no blank is `<` does not begin with a digit. -/
theorem cons_of_head {text : Bytes} (h : (skip text).head? = some '<') :
    ∃ c rest, text = c :: rest ∧ c.isDigit = false := by
  cases text with
  | nil => cases h
  | cons c rest =>
    refine ⟨c, rest, rfl, ?_⟩
    by_contra hdigit
    have hdigit : c.isDigit = true := by simpa using hdigit
    rw [skip_cons (not_isSpace_of_isDigit hdigit)] at h
    rw [Option.some.inj h] at hdigit
    exact absurd hdigit (by decide)

theorem int_digits_rest {d : Char} {ds : Bytes} (hdigits : ∀ c ∈ d :: ds, c.isDigit = true) {c : Char}
    (hc : c.isDigit = false) {rest rest' : Bytes} {n : Int}
    (h : int_ (d :: ds ++ c :: rest) = some (n, rest')) : rest' = c :: rest := by
  have hd := hdigits d List.mem_cons_self
  have hnumber := (Option.filter_eq_some_iff.mp h).1
  have hdrop : (d :: ds ++ c :: rest).dropWhile Char.isDigit = c :: rest := by
    rw [List.dropWhile_append_of_pos hdigits, List.dropWhile_cons, hc]
    rfl
  rw [List.cons_append] at hnumber hdrop
  rw [skip_cons (not_isSpace_of_isDigit hd), splitNumber, splitSign_digit hd] at hnumber
  split at hnumber
  · cases hnumber
  · simp only [Option.some.injEq, Prod.mk.injEq] at hnumber
    rw [← hnumber.2, hdrop]

/-- `raw` is the message, with its length in front or not: digits and blanks. -/
def WithLength (raw msg : Bytes) : Prop :=
  ∃ digits blanks, raw = digits ++ (blanks ++ msg) ∧ (∀ c ∈ digits, c.isDigit = true) ∧
    ∀ c ∈ blanks, isSpace c = true

theorem parse_syslog_eq_true {msg : Bytes} {v v' : SyslogMap} (h : parse_syslog msg v = (v', true)) :
    ∃ rest, syslogMessage v msg = (v', some rest) := by
  unfold parse_syslog at h
  rcases hrun : syslogMessage v msg with ⟨w, _ | rest⟩
  · rw [hrun] at h
    cases h
  · rw [hrun] at h
    exact ⟨rest, by rw [(Prod.mk.inj h).1]⟩

/-- The length changes `msglen` only. -/
theorem syslogMessage_withLength {raw msg : Bytes} (hraw : WithLength raw msg)
    (hhead : (skip msg).head? = some '<') {v' : SyslogMap} {left : Bytes}
    (h : syslogMessage .empty raw = (v', some left)) :
    ∃ v, (v = .empty ∨ ∃ n, v = OrderedMap.empty.insert "msglen" (.int n)) ∧
      Phrase.seq (beforeContent ++ [content]) v msg = (v', some left) := by
  obtain ⟨digits, blanks, rfl, hdigits, hblanks⟩ := hraw
  obtain ⟨t, ht⟩ := skip_of_head hhead
  have hskip : skip (blanks ++ msg) = skip msg := skip_append_blanks hblanks msg
  have hsame : ∀ v, Phrase.seq (beforeContent ++ [content]) v (blanks ++ msg) =
      Phrase.seq (beforeContent ++ [content]) v msg := seq_lit_congr hskip _
  cases digits with
  | nil =>
    have hnone : int_ (blanks ++ msg) = none := int_of_head (hskip ▸ hhead)
    refine ⟨.empty, .inl rfl, ?_⟩
    rw [← hsame, ← syslogMessage_of_int_none hnone]
    exact h
  | cons d ds =>
    have hd := hdigits d List.mem_cons_self
    have hlt : ¬ ['<'] <+: skip (d :: ds ++ (blanks ++ msg)) := by
      rw [List.cons_append, skip_cons (not_isSpace_of_isDigit hd)]
      rintro ⟨rest, hrest⟩
      rw [← (List.cons.inj hrest).1] at hd
      exact absurd hd (by decide)
    obtain ⟨c, rest, hcons, hc⟩ : ∃ c rest, blanks ++ msg = c :: rest ∧ c.isDigit = false :=
      cons_of_head (hskip ▸ hhead)
    cases hint : int_ (d :: ds ++ (blanks ++ msg)) with
    | none =>
      have hlit : lit "<".toList (d :: ds ++ (blanks ++ msg)) = none := if_neg hlt
      have hfail : Phrase.seq (beforeContent ++ [content]) .empty (d :: ds ++ (blanks ++ msg)) =
          (.empty, none) := Phrase.seq_cons_of_none (Phrase.token_of_none hlit _) _
      rw [syslogMessage_of_int_none hint, hfail] at h
      cases h
    | some read =>
      obtain ⟨n, rest'⟩ := read
      have hrest : rest' = blanks ++ msg := by
        rw [hcons] at hint ⊢
        exact int_digits_rest hdigits hc hint
      rw [hrest] at hint
      refine ⟨_, .inr ⟨n, rfl⟩, ?_⟩
      rw [← hsame]
      exact (syslogMessage_of_int_some hint hlt).mp h

/-- A text without a length is accepted when it comes with one. -/
theorem parse_syslog_withLength {msg : Bytes} {n : Nat} (hn : n < 2 ^ 31) {v : SyslogMap}
    (h : Phrase.seq (beforeContent ++ [content]) (OrderedMap.empty.insert "msglen" (.int n)) msg =
      (v, some [])) :
    parse_syslog (Nat.toDigits 10 n ++ ' ' :: msg) .empty = (v, true) := by
  have hdigits : ∀ c ∈ Nat.toDigits 10 n, c.isDigit = true :=
    fun c hc => Nat.isDigit_of_mem_toDigits (by decide) (by decide) hc
  obtain ⟨d, ds, hcons⟩ := List.exists_cons_of_ne_nil
    (List.ne_nil_of_length_pos (Nat.length_toDigits_pos (b := 10) (n := n)))
  have hd : d.isDigit = true := hdigits d (hcons ▸ List.mem_cons_self)
  have hint : int_ (Nat.toDigits 10 n ++ ' ' :: msg) = some ((n : Int), ' ' :: msg) := by
    have hvalue : Nat.ofDigitChars 10 (Nat.toDigits 10 n) 0 = n := Nat.ofDigitChars_ten_toDigits
    have hread := int_digits hdigits (hcons ▸ List.cons_ne_nil d ds) (hvalue.symm ▸ hn)
      (show Char.isDigit ' ' = false by decide) msg
    rwa [hvalue] at hread
  have hlt : ¬ ['<'] <+: skip (Nat.toDigits 10 n ++ ' ' :: msg) := by
    rw [hcons, List.cons_append, skip_cons (not_isSpace_of_isDigit hd)]
    rintro ⟨rest, hrest⟩
    rw [← (List.cons.inj hrest).1] at hd
    exact absurd hd (by decide)
  have hmessage : syslogMessage .empty (Nat.toDigits 10 n ++ ' ' :: msg) = (v, some []) := by
    refine (syslogMessage_of_int_some hint hlt).mpr ?_
    rw [← h]
    exact seq_lit_congr (skip_blank msg) _ _
  rw [parse_syslog, hmessage]
  rfl

section Accepted

variable {raw msg : Bytes} {v : SyslogMap}

/-- The run on the message itself. -/
theorem run_of_parse_syslog (hraw : WithLength raw msg) (hhead : (skip msg).head? = some '<')
    (h : parse_syslog raw .empty = (v, true)) :
    ∃ v₀ left, (v₀ = .empty ∨ ∃ n, v₀ = OrderedMap.empty.insert "msglen" (.int n)) ∧
      Phrase.seq (beforeContent ++ [content]) v₀ msg = (v, some left) := by
  obtain ⟨left, hrun⟩ := parse_syslog_eq_true h
  obtain ⟨v₀, hv₀, hrun⟩ := syslogMessage_withLength hraw hhead hrun
  exact ⟨v₀, left, hv₀, hrun⟩

theorem msglen_body {v₀ : SyslogMap}
    (h : v₀ = .empty ∨ ∃ n, v₀ = OrderedMap.empty.insert "msglen" (.int n)) :
    v₀.find? "body" = none := by
  rcases h with rfl | ⟨n, rfl⟩
  · rfl
  · rw [OrderedMap.find?_insert, if_neg (by decide)]
    rfl

/-- The body of an accepted message is its end. -/
theorem body_suffix (hraw : WithLength raw msg) (hhead : (skip msg).head? = some '<')
    (h : parse_syslog raw .empty = (v, true)) :
    ∃ body, body <:+ msg ∧ v.find? "body" = some (.str body) := by
  obtain ⟨v₀, left, hv₀, hrun⟩ := run_of_parse_syslog hraw hhead h
  rcases hbefore : Phrase.seq beforeContent v₀ msg with ⟨v₁, _ | r⟩
  · rw [Phrase.seq_append_of_none hbefore] at hrun
    cases hrun
  · rw [Phrase.seq_append_of_some hbefore] at hrun
    have hnone : v₁.find? "body" = none := by
      have hsame := beforeContent_body v₀ msg
      rw [hbefore] at hsame
      exact hsame.trans (msglen_body hv₀)
    rcases hread : content v₁ r with ⟨w, _ | r'⟩
    · rw [Phrase.seq_cons_of_none hread] at hrun
      cases hrun
    · rw [Phrase.seq_cons_of_some hread] at hrun
      cases hrun
      obtain ⟨body, hsuffix, hbody⟩ := content_body hnone hread
      exact ⟨body, hsuffix.trans (shrinks_beforeContent _ _ _ _ hbefore), hbody⟩

/-- A message that is accepted is accepted with another text behind a quote of its body, and with
its new length in front. The fields are the same, but for the length and the body. -/
theorem parse_syslog_splice {u b x₁ x₂ : Bytes} (hraw : WithLength raw (u ++ '"' :: x₁))
    (hhead : (skip (u ++ '"' :: x₁)).head? = some '<') (h : parse_syslog raw .empty = (v, true))
    (hbody : v.find? "body" = some (.str (b ++ '"' :: x₁))) (hb : Bracketed b) {n : Nat}
    (hn : n < 2 ^ 31) :
    ∃ v', parse_syslog (Nat.toDigits 10 n ++ ' ' :: (u ++ '"' :: x₂)) .empty = (v', true) ∧
      SameBut ["body", "msglen"] v v' ∧ v'.find? "body" = some (.str (b ++ '"' :: x₂)) := by
  obtain ⟨v₀, left, hv₀, hrun⟩ := run_of_parse_syslog hraw hhead h
  have hstart : SameBut ["msglen"] v₀ (OrderedMap.empty.insert "msglen" (.int n)) := by
    intro key hkey
    have hne : key ≠ "msglen" := fun heq => hkey (List.mem_singleton.mpr heq)
    rcases hv₀ with rfl | ⟨m, rfl⟩
    · rw [OrderedMap.find?_insert, if_neg hne]
    · rw [OrderedMap.find?_insert, OrderedMap.find?_insert, if_neg hne, if_neg hne]
  obtain ⟨v', hrun', hsame, hbody'⟩ : ∃ v', Phrase.seq (beforeContent ++ [content])
      (OrderedMap.empty.insert "msglen" (.int n)) (u ++ '"' :: x₂) = (v', some []) ∧
      SameBut ["body", "msglen"] v v' ∧ v'.find? "body" = some (.str (b ++ '"' :: x₂)) :=
    beforeContent_splice hstart (msglen_body hv₀) (msglen_body (.inr ⟨n, rfl⟩)) hrun hbody hb
  exact ⟨v', parse_syslog_withLength hn hrun', hsame, hbody'⟩

end Accepted

end TfAnalytics.Collector
