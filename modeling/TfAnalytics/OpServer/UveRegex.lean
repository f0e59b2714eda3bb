import TfAnalytics.Lib.Glob
import TfAnalytics.OpServer.UveCacheProcessor
import TfAnalytics.OpServer.UveServer

/-!
# Key filters

A `kfilt` names UVEs with `*` for any text. `get_uve_regex` (uveserver.py) turns it into a
regular expression by textual substitution, without escaping anything.

* `get_uve_regex_eq`: the expression that a filter becomes;
* `globs_iff`: the filters that match as globs, for every name, and for every name without a
  newline;
* `selectEntry_kfilt`, `mem_barekeys_iff`, `keyPasses_patterns_iff`: with several filters a name is
  kept if one of them matches, by the server, the cache and the stream.

Of `re`, what the filters rely on is defined here: patterns of single characters, `.`, `.*?`, `^`
and `$`. A `{` that begins no repetition is a character. Any other pattern is compiled by a
parameter.
-/

namespace TfAnalytics.OpServer

open TfAnalytics.Lib

-- ---------------------------------------------------------------------------
-- Regular expressions
-- ---------------------------------------------------------------------------

namespace Re

/-- The parts of a pattern: a character, `.`, `.*?`, `^` and `$`. -/
inductive Part where
  | char (c : Char)
  | dot
  | dots
  | start
  | stop
  deriving DecidableEq

/-- The characters that start or end any other construct of `re`. -/
def others : List Char := ['\\', '[', '(', ')', '|', '+', '?']

/-- What is behind a `{` makes it a repetition: `{m}`, `{m,}`, `{,n}`, `{m,n}` or `{,}`. Otherwise
`re` reads the `{` as itself. -/
def repeats (rest : List Char) : Bool :=
  let lo := rest.takeWhile Char.isDigit
  let behind := rest.dropWhile Char.isDigit
  (!lo.isEmpty && behind.head? = some '}') ||
    (behind.head? = some ',' && (behind.tail.dropWhile Char.isDigit).head? = some '}')

/-- The parts of a pattern, if it has no other construct. -/
def parse : List Char → Option (List Part)
  | [] => some []
  | '.' :: '*' :: '?' :: rest => (parse rest).map (.dots :: ·)
  | c :: rest =>
    if c ∈ others ∨ c = '*' ∨ (c = '{' ∧ repeats rest = true) then none
    else if c = '.' then (parse rest).map (.dot :: ·)
    else if c = '^' then (parse rest).map (.start :: ·)
    else if c = '$' then (parse rest).map (.stop :: ·)
    else (parse rest).map (.char c :: ·)

/-- `.*?` goes over the text as far as the rest of the pattern needs, up to a newline. -/
def overDots (rest : Bool → List Char → Bool) : Bool → List Char → Bool
  | first, [] => rest first []
  | first, d :: text => rest first (d :: text) || (d ≠ '\n' && overDots rest false text)

/-- A match from where the text starts; `first` says that this is the beginning of the string.
`$` is also before a newline that ends it. -/
def run : List Part → Bool → List Char → Bool
  | [], _, _ => true
  | .char c :: rest, _, d :: text => c = d && run rest false text
  | .char _ :: _, _, [] => false
  | .dot :: rest, _, d :: text => d ≠ '\n' && run rest false text
  | .dot :: _, _, [] => false
  | .dots :: rest, first, text => overDots (run rest) first text
  | .start :: rest, first, text => first && run rest first text
  | .stop :: rest, first, text => (text = [] || text = ['\n']) && run rest first text

/-- `re.compile(regex).match`; `none` is an `re.error`. -/
def compile (other : List Char → Option (List Char → Bool)) (regex : List Char) :
    Option (List Char → Bool) :=
  match parse regex with
  | some parts => some (run parts true)
  | none => other regex

/-- `key.replace('*', '.*?')`. -/
def expand (key : List Char) : List Char :=
  key.flatMap fun c => if c = '*' then ['.', '*', '?'] else [c]

end Re

/-- `get_uve_regex`, as the test for a match; an empty key raises an `IndexError`. -/
def get_uve_regex (other : List Char → Option (List Char → Bool)) (key : List Char) :
    Option (List Char → Bool) := do
  let regex := if (← key.head?) ≠ '*' then ['^'] else []
  let regex := regex ++ Re.expand key
  let regex := regex ++ if (← key.getLast?) ≠ '*' then ['$'] else []
  Re.compile other regex

/-- The filter compiles, and the name matches. -/
def Matches (other : List Char → Option (List Char → Bool)) (key name : List Char) : Prop :=
  ∃ pattern, get_uve_regex other key = some pattern ∧ pattern name = true

-- ---------------------------------------------------------------------------
-- Which filters are globs
-- ---------------------------------------------------------------------------

/-- The other constructs of `re` do not occur. -/
def Simple (key : List Char) : Prop :=
  (∀ c ∈ key, c ∉ Re.others) ∧ ∀ start rest, key = start ++ '{' :: rest → Re.repeats rest = false

/-- No character of the filter but the star means anything to `re`. -/
def Literal (key : List Char) : Prop := ∀ c ∈ key, c ∉ ['.', '^', '$']

/-- After a star: nothing but stars, and newlines with a star behind. -/
def starsApart : List Char → Bool
  | [] => true
  | '*' :: rest => starsApart rest
  | '\n' :: '*' :: rest => starsApart rest
  | _ => false

theorem starsApart_eq_false {key : List Char} (hnil : key = [] → False)
    (hstar : ∀ rest, key = '*' :: rest → False)
    (hnewline : ∀ rest, key = '\n' :: '*' :: rest → False) : starsApart key = false := by
  rw [starsApart.eq_def]
  split
  · exact absurd rfl hnil
  · exact absurd rfl (hstar _)
  · exact absurd rfl (hnewline _)
  · rfl

/-- A start, and then a star and what `starsApart` allows. -/
def OpenEnded (key : List Char) : Prop :=
  ∃ start rest, key = start ++ '*' :: rest ∧ '*' ∉ start ∧ starsApart rest = true

-- ---------------------------------------------------------------------------
-- The compiled pattern
-- ---------------------------------------------------------------------------

namespace Re

/-- What a character of a filter becomes. -/
def part (c : Char) : Part :=
  if c = '*' then .dots else if c = '.' then .dot else if c = '^' then .start
  else if c = '$' then .stop else .char c

theorem part_of_literal {c : Char} (hc : c ∉ ['.', '^', '$']) (hne : c ≠ '*') : part c = .char c := by
  simp only [List.mem_cons, List.not_mem_nil, or_false, not_or] at hc
  rw [part, if_neg hne, if_neg hc.1, if_neg hc.2.1, if_neg hc.2.2]

/-- A single character in front, where no `.*?` starts. -/
theorem parse_cons {c : Char} {rest : List Char} (hc : c ∉ others) (hne : c ≠ '*')
    (hbrace : c = '{' → repeats rest = false) (hrest : rest.head? ≠ some '*') :
    parse (c :: rest) = (parse rest).map (part c :: ·) := by
  have hplain : ¬ (c ∈ others ∨ c = '*' ∨ (c = '{' ∧ repeats rest = true)) := by
    rintro (hmem | hstar | ⟨hbr, hrep⟩)
    · exact hc hmem
    · exact hne hstar
    · rw [hbrace hbr] at hrep
      cases hrep
  have hgoal : (if c ∈ others ∨ c = '*' ∨ (c = '{' ∧ repeats rest = true) then none
      else if c = '.' then (parse rest).map (.dot :: ·)
      else if c = '^' then (parse rest).map (.start :: ·)
      else if c = '$' then (parse rest).map (.stop :: ·)
      else (parse rest).map (.char c :: ·)) = (parse rest).map (part c :: ·) := by
    rw [if_neg hplain, part, if_neg hne]
    split_ifs <;> rfl
  rw [← hgoal, parse.eq_def]
  split
  · rename_i heq
    cases heq
  · rename_i heq
    obtain ⟨-, rfl⟩ := List.cons.inj heq
    exact absurd rfl hrest
  · rename_i heq
    obtain ⟨rfl, rfl⟩ := List.cons.inj heq
    rfl

@[simp] theorem expand_nil : expand [] = [] := rfl

theorem expand_cons (c : Char) (rest : List Char) :
    expand (c :: rest) = (if c = '*' then ['.', '*', '?'] else [c]) ++ expand rest :=
  List.flatMap_cons

/-- The numbers at the front of a filter are those at the front of its expression. -/
theorem span_expand {tail : List Char} (htail : ∀ c, tail.head? = some c → c.isDigit = false)
    (key : List Char) :
    (expand key ++ tail).takeWhile Char.isDigit = key.takeWhile Char.isDigit ∧
    (expand key ++ tail).dropWhile Char.isDigit = expand (key.dropWhile Char.isDigit) ++ tail := by
  induction key with
  | nil =>
    cases tail with
    | nil => exact ⟨rfl, rfl⟩
    | cons c tail =>
      have hc := htail c rfl
      simp [hc]
  | cons c rest ih =>
    rw [expand_cons]
    by_cases hstar : c = '*'
    · subst hstar
      have hdot : Char.isDigit '.' = false := by decide
      have hstar : Char.isDigit '*' = false := by decide
      simp [hdot, hstar, expand_cons]
    · rw [if_neg hstar, List.singleton_append, List.cons_append]
      by_cases hdigit : c.isDigit = true
      · simp only [List.takeWhile_cons, List.dropWhile_cons, hdigit, if_true, ih, and_self]
      · simp [hdigit, expand_cons, hstar]

theorem head_expand {d : Char} (hd : d ≠ '.' ∧ d ≠ '*') {tail : List Char}
    (htail : tail.head? ≠ some d) (key : List Char) :
    (expand key ++ tail).head? = some d ↔ key.head? = some d := by
  cases key with
  | nil => simpa using htail
  | cons c rest =>
    rw [expand_cons]
    by_cases hstar : c = '*'
    · subst hstar
      simp [hd.1.symm, hd.2.symm]
    · simp [hstar]

/-- A `{` begins a repetition in the expression where it does in the filter. -/
theorem repeats_expand {tail : List Char}
    (htail : ∀ c, tail.head? = some c → c = '$') (key : List Char) :
    repeats (expand key ++ tail) = repeats key := by
  have hdigit : ∀ c, tail.head? = some c → c.isDigit = false := fun c hc => by
    rw [htail c hc]
    decide
  have hne : ∀ d, d ≠ '$' → tail.head? ≠ some d := fun d hd heq => hd (htail d heq)
  have hbracket := fun key => head_expand (d := '}') (by decide) (hne '}' (by decide)) key
  have hcomma := fun key => head_expand (d := ',') (by decide) (hne ',' (by decide)) key
  obtain ⟨hlo, hbehind⟩ := span_expand hdigit key
  unfold repeats
  simp only [hlo, hbehind, hbracket, hcomma]
  congr 1
  rw [Bool.eq_iff_iff, Bool.and_eq_true, Bool.and_eq_true]
  refine and_congr_right fun hhead => ?_
  obtain ⟨hi, hhi⟩ : ∃ hi, key.dropWhile Char.isDigit = ',' :: hi := by
    cases hdrop : key.dropWhile Char.isDigit with
    | nil => simp [hdrop] at hhead
    | cons c hi =>
      rw [hdrop] at hhead
      obtain rfl : c = ',' := by simpa using hhead
      exact ⟨hi, rfl⟩
  have htailEq : (expand (key.dropWhile Char.isDigit) ++ tail).tail = expand hi ++ tail := by
    rw [hhi, expand_cons]
    rfl
  rw [htailEq, (span_expand hdigit hi).2, hhi, List.tail_cons]
  simp only [hbracket]

/-- The text of a filter, part by part. -/
theorem parse_flatMap {key tail : List Char} (hkey : Simple key)
    (htail : ∀ c, tail.head? = some c → c = '$') :
    parse (expand key ++ tail) = (parse tail).map (key.map part ++ ·) := by
  induction key with
  | nil => simp
  | cons c rest ih =>
    have hrest := ih ⟨fun d hd => hkey.1 d (List.mem_cons_of_mem _ hd),
      fun start rest' heq => hkey.2 (c :: start) rest' (by rw [heq]; rfl)⟩
    rw [expand_cons, List.append_assoc, List.map_cons]
    by_cases hc : c = '*'
    · subst hc
      have hparse : ∀ text, parse ('.' :: '*' :: '?' :: text) = (parse text).map (Part.dots :: ·) :=
        fun _ => rfl
      rw [if_pos rfl, List.cons_append, List.cons_append, List.singleton_append, hparse, hrest,
        Option.map_map]
      rfl
    · have hhead : (expand rest ++ tail).head? ≠ some '*' := by
        cases rest with
        | nil => exact fun heq => absurd (htail _ heq) (by decide)
        | cons d rest =>
          rw [expand_cons]
          by_cases hd : d = '*'
          · simp [hd]
          · simp [hd]
      rw [if_neg hc, List.singleton_append,
        parse_cons (hkey.1 c List.mem_cons_self) hc (fun hbrace => ?_) hhead, hrest, Option.map_map]
      · rfl
      · rw [repeats_expand htail]
        exact hkey.2 [] rest (by rw [hbrace]; rfl)

-- ---------------------------------------------------------------------------
-- Matching
-- ---------------------------------------------------------------------------

theorem overDots_iff {rest : Bool → List Char → Bool} {first : Bool} {text : List Char} :
    overDots rest first text = true ↔
      ∃ s t, text = s ++ t ∧ '\n' ∉ s ∧ rest (first && s.isEmpty) t = true := by
  induction text generalizing first with
  | nil =>
    constructor
    · intro h
      exact ⟨[], [], rfl, List.not_mem_nil, by rwa [List.isEmpty_nil, Bool.and_true]⟩
    · intro ⟨s, t, heq, _, h⟩
      obtain ⟨rfl, rfl⟩ := List.append_eq_nil_iff.mp heq.symm
      rwa [List.isEmpty_nil, Bool.and_true] at h
  | cons d text ih =>
    rw [overDots, Bool.or_eq_true, Bool.and_eq_true, ih, decide_eq_true_eq]
    constructor
    · intro h
      rcases h with h | ⟨hd, s, t, rfl, hs, h⟩
      · exact ⟨[], d :: text, rfl, List.not_mem_nil, by rwa [List.isEmpty_nil, Bool.and_true]⟩
      · refine ⟨d :: s, t, rfl, ?_, ?_⟩
        · rw [List.mem_cons, not_or]
          exact ⟨Ne.symm hd, hs⟩
        · rwa [List.isEmpty_cons, Bool.and_false]
    · intro ⟨s, t, heq, hs, h⟩
      cases s with
      | nil =>
        rw [List.isEmpty_nil, Bool.and_true, ← show d :: text = t from heq] at h
        exact .inl h
      | cons c s =>
        obtain ⟨rfl, rfl⟩ := List.cons.inj heq
        rw [List.mem_cons, not_or] at hs
        rw [List.isEmpty_cons, Bool.and_false] at h
        exact .inr ⟨Ne.symm hs.1, s, t, rfl, hs.2, h⟩

theorem run_dots_iff {parts : List Part} {first : Bool} {text : List Char} :
    run (.dots :: parts) first text = true ↔
      ∃ s t, text = s ++ t ∧ '\n' ∉ s ∧ run parts (first && s.isEmpty) t = true :=
  overDots_iff

theorem run_char_iff {c : Char} {parts : List Part} {first : Bool} {text : List Char} :
    run (.char c :: parts) first text = true ↔ ∃ t, text = c :: t ∧ run parts false t = true := by
  cases text with
  | nil => simp [run]
  | cons d text =>
    rw [run, Bool.and_eq_true, decide_eq_true_eq]
    constructor
    · intro ⟨hcd, h⟩
      exact ⟨text, by rw [hcd], h⟩
    · intro ⟨t, heq, h⟩
      obtain ⟨rfl, rfl⟩ := List.cons.inj heq
      exact ⟨rfl, h⟩

theorem run_dot_iff {parts : List Part} {first : Bool} {text : List Char} :
    run (.dot :: parts) first text = true ↔
      ∃ d t, text = d :: t ∧ d ≠ '\n' ∧ run parts false t = true := by
  cases text with
  | nil => simp [run]
  | cons d text => simp [run]

theorem run_stop_iff {parts : List Part} {first : Bool} {text : List Char} :
    run (.stop :: parts) first text = true ↔
      (text = [] ∨ text = ['\n']) ∧ run parts first text = true := by
  simp [run]

/-- What matches further on matches at the beginning. -/
theorem run_of_later {parts : List Part} {first : Bool} {text : List Char}
    (h : run parts false text = true) : run parts first text = true := by
  cases first with
  | false => exact h
  | true =>
    induction parts generalizing text with
    | nil => rfl
    | cons p parts ih =>
      cases p with
      | char c =>
        rw [run_char_iff] at h ⊢
        exact h
      | dot =>
        rw [run_dot_iff] at h ⊢
        exact h
      | dots =>
        rw [run_dots_iff] at h ⊢
        obtain ⟨s, t, heq, hs, h⟩ := h
        refine ⟨s, t, heq, hs, ?_⟩
        rw [Bool.false_and] at h
        cases s with
        | nil => exact ih h
        | cons c s => exact h
      | start => cases h
      | stop =>
        rw [run_stop_iff] at h ⊢
        exact ⟨h.1, ih h.2⟩

/-- Without `^` it does not matter. -/
theorem run_first {parts : List Part} (hparts : .start ∉ parts) (first : Bool) (text : List Char) :
    run parts first text = run parts false text := by
  rw [Bool.eq_iff_iff]
  refine ⟨fun h => ?_, run_of_later⟩
  induction parts generalizing first text with
  | nil => rfl
  | cons p parts ih =>
    obtain ⟨hp, hrest⟩ := not_or.mp fun h => hparts (List.mem_cons.mpr h)
    cases p with
    | char c =>
      rw [run_char_iff] at h ⊢
      exact h
    | dot =>
      rw [run_dot_iff] at h ⊢
      exact h
    | dots =>
      rw [run_dots_iff] at h ⊢
      obtain ⟨s, t, heq, hs, h⟩ := h
      exact ⟨s, t, heq, hs, ih hrest _ t h⟩
    | start => exact absurd rfl hp
    | stop =>
      rw [run_stop_iff] at h ⊢
      exact ⟨h.1, ih hrest _ text h.2⟩

/-- `.*?.*?` goes as far as `.*?`. -/
theorem run_dots_dots {parts : List Part} {first : Bool} {text : List Char} :
    run (.dots :: .dots :: parts) first text = true ↔ run (.dots :: parts) first text = true := by
  rw [run_dots_iff, run_dots_iff]
  constructor
  · intro ⟨s, t, heq, hs, h⟩
    obtain ⟨s', t', heq', hs', h'⟩ := run_dots_iff.mp h
    refine ⟨s ++ s', t', by rw [heq, heq', List.append_assoc], ?_, ?_⟩
    · rw [List.mem_append, not_or]
      exact ⟨hs, hs'⟩
    · have hempty : (s ++ s').isEmpty = (s.isEmpty && s'.isEmpty) := by cases s <;> rfl
      rwa [hempty, ← Bool.and_assoc]
  · intro ⟨s, t, heq, hs, h⟩
    refine ⟨[], text, rfl, List.not_mem_nil, run_dots_iff.mpr ⟨s, t, heq, hs, ?_⟩⟩
    rwa [List.isEmpty_nil, Bool.and_true]

/-- Characters that stand for themselves. -/
theorem run_chars_iff {chars : List Char} (hliteral : Literal chars) (hstar : '*' ∉ chars)
    {parts : List Part} (hparts : .start ∉ parts) {first : Bool} {text : List Char} :
    run (chars.map part ++ parts) first text = true ↔
      ∃ t, text = chars ++ t ∧ run parts false t = true := by
  induction chars generalizing first text with
  | nil => simp [run_first hparts first]
  | cons c rest ih =>
    obtain ⟨hc, hrest⟩ := not_or.mp fun h => hstar (List.mem_cons.mpr h)
    have hpart := part_of_literal (hliteral c List.mem_cons_self) (Ne.symm hc)
    rw [List.map_cons, hpart, List.cons_append, run_char_iff]
    constructor
    · intro ⟨t, hu, h⟩
      obtain ⟨t', rfl, h'⟩ := (ih (fun d hd => hliteral d (List.mem_cons_of_mem _ hd)) hrest).mp h
      exact ⟨t', hu, h'⟩
    · intro ⟨t, hu, h⟩
      exact ⟨rest ++ t, hu,
        (ih (fun d hd => hliteral d (List.mem_cons_of_mem _ hd)) hrest).mpr ⟨t, rfl, h⟩⟩

-- ---------------------------------------------------------------------------
-- Filters that are globs
-- ---------------------------------------------------------------------------

theorem start_not_mem_part {key : List Char} (hkey : Literal key) : Part.start ∉ key.map part := by
  intro hmem
  obtain ⟨c, hc, hpart⟩ := List.mem_map.mp hmem
  by_cases hstar : c = '*'
  · rw [part, if_pos hstar] at hpart
    cases hpart
  · rw [part_of_literal (hkey c hc) hstar] at hpart
    cases hpart

/-- Over names without a newline, a filter and a glob that end alike agree. -/
theorem run_glob {key : List Char} (hkey : Literal key) {parts : List Part} {k : List Char}
    (hends : ∀ first u, '\n' ∉ u → (run parts first u = true ↔ Glob '*' k u)) :
    ∀ first u, '\n' ∉ u → (run (key.map part ++ parts) first u = true ↔ Glob '*' (key ++ k) u) := by
  induction key with
  | nil => exact hends
  | cons c rest ih =>
    intro first u hu
    have hrest := ih fun d hd => hkey d (List.mem_cons_of_mem _ hd)
    rw [List.map_cons, List.cons_append, List.cons_append]
    by_cases hc : c = '*'
    · subst hc
      show run (.dots :: (rest.map part ++ parts)) first u = true ↔ _
      rw [run_dots_iff, glob_star_iff]
      refine exists₂_congr fun s t => and_congr_right fun heq => ?_
      rw [heq, List.mem_append, not_or] at hu
      rw [hrest _ t hu.2]
      exact ⟨fun h => h.2, fun h => ⟨hu.1, h⟩⟩
    · rw [part_of_literal (hkey c List.mem_cons_self) hc, run_char_iff, glob_cons_iff hc]
      refine exists_congr fun t => and_congr_right fun heq => ?_
      rw [heq, List.mem_cons, not_or] at hu
      exact hrest false t hu.2

/-- The first newline is where the pattern finds its newline. -/
theorem run_starsApart {rest : List Char} (h : starsApart rest = true) {first : Bool}
    {u : List Char} :
    run (.dots :: rest.map part) first u = true ↔ Glob '*' ('*' :: rest) u := by
  induction rest using starsApart.induct generalizing first u with
  | case1 =>
    refine iff_of_true ?_ (glob_star_self u)
    exact run_dots_iff.mpr ⟨[], u, rfl, List.not_mem_nil, rfl⟩
  | case2 rest ih =>
    rw [glob_star_star_iff, ← ih h]
    exact run_dots_dots
  | case3 rest ih =>
    have hstarts : ∀ first t, run (part '\n' :: (part '*' :: rest.map part)) first t = true ↔
        ∃ t', t = '\n' :: t' ∧ Glob '*' ('*' :: rest) t' := by
      intro first t
      rw [part_of_literal (by decide) (by decide), run_char_iff]
      refine exists_congr fun t' => and_congr_right fun _ => ?_
      exact ih h
    rw [List.map_cons, List.map_cons, run_dots_iff, glob_star_iff]
    constructor
    · intro ⟨s, t, heq, _, hrun⟩
      obtain ⟨t', rfl, hglob⟩ := (hstarts _ t).mp hrun
      exact ⟨s, _, heq, .letter (by decide) hglob⟩
    · intro ⟨s, t, heq, hglob⟩
      obtain ⟨t', rfl, htail⟩ := (glob_cons_iff (by decide)).mp hglob
      by_cases hs : '\n' ∈ s
      · -- of the newlines that the star stands for, the first
        obtain ⟨before, after, rfl, hbefore⟩ := List.eq_append_cons_of_mem hs
        refine ⟨before, '\n' :: (after ++ '\n' :: t'), by rw [heq, List.append_assoc]; rfl, hbefore, ?_⟩
        refine (hstarts _ _).mpr ⟨_, rfl, ?_⟩
        have hlonger := glob_star_append (after ++ ['\n']) htail
        rwa [List.append_assoc] at hlonger
      · exact ⟨s, _, heq, hs, (hstarts _ _).mpr ⟨t', rfl, htail⟩⟩
  | case4 rest hnil hstar hnewline =>
    rw [starsApart_eq_false hnil hstar hnewline] at h
    cases h

-- ---------------------------------------------------------------------------
-- Filters that are not
-- ---------------------------------------------------------------------------

/-- What `.` and `.*?` go over may be taken out of a matching text, but for a character for each `.`. -/
theorem run_shorter {parts : List Part} (hparts : ∀ c, .char c ∈ parts → c ∉ ['.', '^', '$'])
    {first : Bool} {u : List Char} (h : run parts first u = true) :
    ∃ v, run parts first v = true ∧ (∀ c ∈ v, c ∉ ['.', '^', '$'] ∧ (c ∈ u ∨ c = 'x')) ∧
      (u = [] → v = []) ∧ (u = ['\n'] → v = [] ∨ v = ['\n']) := by
  induction parts generalizing first u with
  | nil => exact ⟨[], rfl, fun c hc => absurd hc List.not_mem_nil, fun _ => rfl, fun _ => .inl rfl⟩
  | cons p parts ih =>
    have hrest : ∀ c, .char c ∈ parts → c ∉ ['.', '^', '$'] := fun c hc =>
      hparts c (List.mem_cons_of_mem _ hc)
    cases p with
    | char c =>
      -- a character stays
      obtain ⟨t, rfl, ht⟩ := run_char_iff.mp h
      obtain ⟨v, hv, hchars, hnil, -⟩ := ih hrest ht
      refine ⟨c :: v, run_char_iff.mpr ⟨v, rfl, hv⟩, fun d hd => ?_, fun heq => (nomatch heq), fun heq => ?_⟩
      · rcases List.mem_cons.mp hd with rfl | hd
        · exact ⟨hparts d List.mem_cons_self, .inl List.mem_cons_self⟩
        · exact ⟨(hchars d hd).1, (hchars d hd).2.imp_left (List.mem_cons_of_mem _)⟩
      · obtain ⟨rfl, rfl⟩ := List.cons.inj heq
        exact .inr (by rw [hnil rfl])
    | dot =>
      -- any character may be an x
      obtain ⟨d, t, rfl, hd, ht⟩ := run_dot_iff.mp h
      obtain ⟨v, hv, hchars, -⟩ := ih hrest ht
      refine ⟨'x' :: v, run_dot_iff.mpr ⟨'x', v, rfl, by decide, hv⟩, fun c hc => ?_,
        fun heq => (nomatch heq), fun heq => absurd (List.cons.inj heq).1 hd⟩
      rcases List.mem_cons.mp hc with rfl | hc
      · exact ⟨by decide, .inr rfl⟩
      · exact ⟨(hchars c hc).1, (hchars c hc).2.imp_left (List.mem_cons_of_mem _)⟩
    | dots =>
      -- what the star goes over is left out
      obtain ⟨s, t, rfl, hs, ht⟩ := run_dots_iff.mp h
      obtain ⟨v, hv, hchars, hnil, hnewline⟩ := ih hrest ht
      have hv' : run (.dots :: parts) first v = true := by
        refine run_dots_iff.mpr ⟨[], v, rfl, List.not_mem_nil, ?_⟩
        rw [List.isEmpty_nil, Bool.and_true]
        cases s with
        | nil => rwa [List.isEmpty_nil, Bool.and_true] at hv
        | cons c s =>
          rw [List.isEmpty_cons, Bool.and_false] at hv
          exact run_of_later hv
      refine ⟨v, hv', fun c hc => ⟨(hchars c hc).1, (hchars c hc).2.imp_left (List.mem_append_right _)⟩,
        fun heq => hnil (List.append_eq_nil_iff.mp heq).2, fun heq => ?_⟩
      cases s with
      | nil => exact hnewline heq
      | cons c s =>
        obtain ⟨rfl, -⟩ := List.cons.inj heq
        exact absurd List.mem_cons_self hs
    | start =>
      rw [run, Bool.and_eq_true] at h
      obtain ⟨v, hv, hspec⟩ := ih hrest h.2
      refine ⟨v, ?_, hspec⟩
      rw [run, Bool.and_eq_true]
      exact ⟨h.1, hv⟩
    | stop =>
      obtain ⟨hends, h⟩ := run_stop_iff.mp h
      obtain ⟨v, hv, hchars, hnil, hnewline⟩ := ih hrest h
      refine ⟨v, run_stop_iff.mpr ⟨?_, hv⟩, hchars, hnil, hnewline⟩
      rcases hends with hu | hu
      · exact .inl (hnil hu)
      · exact hnewline hu

theorem char_of_part {key : List Char} {c : Char} (h : Part.char c ∈ key.map part) :
    c ∉ ['.', '^', '$'] := by
  obtain ⟨d, -, hd⟩ := List.mem_map.mp h
  rw [part] at hd
  split_ifs at hd with hstar hdot hstart hstop
  obtain rfl := Part.char.inj hd
  simp only [List.mem_cons, List.not_mem_nil, or_false, not_or]
  exact ⟨hdot, hstart, hstop⟩

/-- A filter with a special character: a name that matches, and is not of that form. -/
theorem exists_not_glob {key : List Char} (hkey : ¬ Literal key) {tail : List Part}
    (htail : ∀ c, .char c ∉ tail) {u : List Char} (h : run (key.map part ++ tail) true u = true) :
    ∃ v, run (key.map part ++ tail) true v = true ∧ ¬ Glob '*' key v ∧ ('\n' ∉ u → '\n' ∉ v) := by
  have hparts : ∀ c, Part.char c ∈ key.map part ++ tail → c ∉ ['.', '^', '$'] := by
    intro c hc
    rcases List.mem_append.mp hc with hc | hc
    · exact char_of_part hc
    · exact absurd hc (htail c)
  obtain ⟨v, hv, hchars, -⟩ := run_shorter hparts h
  refine ⟨v, hv, fun hglob => ?_, fun hu hmem => ?_⟩
  · rw [Literal] at hkey
    push Not at hkey
    obtain ⟨c, hc, hspecial⟩ := hkey
    have hne : c ≠ '*' := fun heq => by
      rw [heq] at hspecial
      exact absurd hspecial (by decide)
    exact (hchars c (mem_of_glob hglob hc hne)).1 hspecial
  · rcases (hchars '\n' hmem).2 with hmem | heq
    · exact hu hmem
    · exact absurd heq (by decide)

/-- Where `.*?` meets a newline it stops there. -/
theorem run_dots_newline_iff {parts : List Part} (hparts : .start ∉ parts) {first : Bool}
    {text : List Char} :
    run (.dots :: parts) first ('\n' :: text) = true ↔ run parts false ('\n' :: text) = true := by
  rw [run_dots_iff]
  constructor
  · intro ⟨s, t, heq, hs, h⟩
    cases s with
    | nil =>
      rw [run_first hparts, ← show '\n' :: text = t from heq] at h
      exact h
    | cons c s =>
      obtain ⟨rfl, -⟩ := List.cons.inj heq
      exact absurd List.mem_cons_self hs
  · intro h
    exact ⟨[], '\n' :: text, rfl, List.not_mem_nil, run_of_later h⟩

/-- Behind a star, anything else than newlines with stars behind: a text that is of that form and does
not match. -/
theorem exists_not_run {rest : List Char} (hrest : Literal rest) (h : starsApart rest = false)
    {tail : List Part} (hstart : .start ∉ tail)
    (htail : ('*' :: rest).getLast? ≠ some '*' → tail = [.stop]) :
    ∃ v, Glob '*' ('*' :: rest) v ∧ ¬ run (.dots :: (rest.map part ++ tail)) false v = true := by
  induction rest using starsApart.induct with
  | case1 => cases h
  | case2 rest ih =>
    rw [List.getLast?_cons_cons] at htail
    obtain ⟨v, hglob, hrun⟩ := ih (fun c hc => hrest c (List.mem_cons_of_mem _ hc)) h htail
    -- two stars are as good as one
    refine ⟨v, glob_star_star_iff.mpr hglob, fun hmatch => hrun ?_⟩
    exact run_dots_dots.mp hmatch
  | case3 rest ih =>
    rw [List.getLast?_cons_cons, List.getLast?_cons_cons] at htail
    have hlater : Literal rest := fun c hc => hrest c (List.mem_cons_of_mem _ (List.mem_cons_of_mem _ hc))
    obtain ⟨v, hglob, hrun⟩ := ih hlater h htail
    -- the newline behind the star is matched, and what fails is behind it
    refine ⟨'\n' :: v, .wild (s := []) (.letter (by decide) hglob), fun hmatch => hrun ?_⟩
    have hparts : Part.start ∉ ('\n' :: '*' :: rest).map part ++ tail := by
      rw [List.mem_append, not_or]
      exact ⟨start_not_mem_part hrest, hstart⟩
    rw [run_dots_newline_iff hparts, List.map_cons, List.cons_append,
      part_of_literal (by decide) (by decide), run_char_iff] at hmatch
    obtain ⟨t, heq, ht⟩ := hmatch
    obtain ⟨-, rfl⟩ := List.cons.inj heq
    exact ht
  | case4 rest hnil hstar hnewline =>
    -- neither: a newline more stops the star before a character that is not one
    have hparts : Part.start ∉ rest.map part ++ tail := by
      rw [List.mem_append, not_or]
      exact ⟨start_not_mem_part hrest, hstart⟩
    cases rest with
    | nil => exact absurd rfl hnil
    | cons c rest =>
      have hc : c ≠ '*' := fun heq => hstar rest (heq ▸ rfl)
      have hchar := part_of_literal (hrest c List.mem_cons_self) hc
      by_cases hline : c = '\n'
      · subst hline
        cases rest with
        | nil =>
          refine ⟨['\n', '\n', '\n'], .wild (s := ['\n', '\n']) (.letter (by decide) .nil), ?_⟩
          rw [htail (by decide)]
          decide
        | cons d rest =>
          have hd : d ≠ '*' := fun heq => hnewline rest (heq ▸ rfl)
          have hdchar := part_of_literal (hrest d (List.mem_cons_of_mem _ List.mem_cons_self)) hd
          -- or, if that is a newline, before another character than the next
          obtain ⟨x, hx⟩ : ∃ x : Char, x ≠ d := by
            by_cases hdx : d = 'x'
            · exact ⟨'y', by rw [hdx]; decide⟩
            · exact ⟨'x', Ne.symm hdx⟩
          refine ⟨['\n', x] ++ '\n' :: d :: rest.filter (· ≠ '*'),
            .wild (.letter hc (.letter hd (glob_filter rest))), fun hmatch => ?_⟩
          rw [List.cons_append, run_dots_newline_iff hparts, List.map_cons, List.cons_append, hchar,
            run_char_iff] at hmatch
          obtain ⟨t, heq, ht⟩ := hmatch
          obtain ⟨-, rfl⟩ := List.cons.inj heq
          rw [List.map_cons, List.cons_append, hdchar, run_char_iff] at ht
          obtain ⟨t, heq, -⟩ := ht
          exact hx (List.cons.inj heq).1
      · refine ⟨['\n'] ++ c :: rest.filter (· ≠ '*'), .wild (.letter hc (glob_filter rest)),
          fun hmatch => ?_⟩
        rw [List.singleton_append, run_dots_newline_iff hparts, List.map_cons, List.cons_append, hchar,
          run_char_iff] at hmatch
        obtain ⟨t, heq, -⟩ := hmatch
        exact hline (List.cons.inj heq).1.symm

end Re

-- ---------------------------------------------------------------------------
-- Key filters
-- ---------------------------------------------------------------------------

section

variable {other : List Char → Option (List Char → Bool)} {key : List Char}

/-- `$`, unless the filter ends with a star. -/
def ending (key : List Char) : List Re.Part := if key.getLast? = some '*' then [] else [.stop]

/-- The pattern of a filter without other constructs. -/
theorem get_uve_regex_eq (hne : key ≠ []) (hsimple : Simple key) :
    ∃ pattern, get_uve_regex other key = some pattern ∧
      ∀ name, pattern name = Re.run (key.map Re.part ++ ending key) true name := by
  obtain ⟨c, rest, rfl⟩ := List.exists_cons_of_ne_nil hne
  obtain ⟨last, hlast⟩ := Option.ne_none_iff_exists'.mp (mt List.getLast?_eq_none_iff.mp hne)
  have hparse : Re.parse (Re.expand (c :: rest) ++ if last ≠ '*' then ['$'] else []) =
      some ((c :: rest).map Re.part ++ ending (c :: rest)) := by
    rw [ending, hlast]
    by_cases hstar : last = '*'
    · rw [if_neg (not_not.mpr hstar), Re.parse_flatMap hsimple (by simp),
        if_pos (congrArg some hstar)]
      rfl
    · rw [if_pos hstar, Re.parse_flatMap hsimple (by simp),
        if_neg fun heq => hstar (Option.some.inj heq)]
      rfl
  rw [get_uve_regex, hlast]
  simp only [List.head?_cons, Option.bind_eq_bind, Option.bind_some]
  by_cases hc : c = '*'
  · refine ⟨Re.run ((c :: rest).map Re.part ++ ending (c :: rest)) true, ?_, fun name => rfl⟩
    rw [if_neg (not_not.mpr hc), List.nil_append, Re.compile, hparse]
  · refine ⟨Re.run (.start :: ((c :: rest).map Re.part ++ ending (c :: rest))) true, ?_, fun name => ?_⟩
    · have hhead : (Re.expand (c :: rest) ++ if last ≠ '*' then ['$'] else []).head? ≠ some '*' := by
        rw [Re.expand_cons, if_neg hc]
        simpa using hc
      rw [if_pos hc, List.append_assoc, List.singleton_append, Re.compile,
        Re.parse_cons (by decide) (by decide) (fun hbrace => absurd hbrace (by decide)) hhead, hparse]
      rfl
    · rw [Re.run, Bool.true_and]

theorem matches_iff (hne : key ≠ []) (hsimple : Simple key) {name : List Char} :
    Matches other key name ↔ Re.run (key.map Re.part ++ ending key) true name = true := by
  obtain ⟨pattern, hpattern, hrun⟩ : ∃ pattern, get_uve_regex other key = some pattern ∧
      ∀ name, pattern name = Re.run (key.map Re.part ++ ending key) true name :=
    get_uve_regex_eq hne hsimple
  rw [← hrun name]
  constructor
  · intro ⟨pattern', hpattern', hmatch⟩
    rw [hpattern] at hpattern'
    exact Option.some.inj hpattern' ▸ hmatch
  · exact fun hmatch => ⟨pattern, hpattern, hmatch⟩

/-- Names without a newline. -/
theorem run_iff_glob (hkey : Literal key) {name : List Char} (hname : '\n' ∉ name) :
    Re.run (key.map Re.part ++ ending key) true name = true ↔ Glob '*' key name := by
  by_cases hlast : key.getLast? = some '*'
  · obtain ⟨start, rfl⟩ := List.getLast?_eq_some_iff.mp hlast
    have hstart : Literal start := fun c hc => hkey c (List.mem_append_left _ hc)
    rw [ending, if_pos hlast, List.append_nil, List.map_append]
    refine Re.run_glob hstart (fun first u hu => ?_) true name hname
    exact iff_of_true (Re.run_dots_iff.mpr ⟨[], u, rfl, List.not_mem_nil, rfl⟩) (glob_star_self u)
  · rw [ending, if_neg hlast]
    have hstop : ∀ first u, '\n' ∉ u → (Re.run [.stop] first u = true ↔ Glob '*' [] u) := by
      intro first u hu
      rw [Re.run_stop_iff, glob_nil_iff]
      constructor
      · intro ⟨h, _⟩
        rcases h with rfl | rfl
        · rfl
        · exact absurd List.mem_cons_self hu
      · exact fun h => ⟨.inl h, rfl⟩
    have hends := Re.run_glob hkey hstop true name hname
    rwa [List.append_nil] at hends

theorem ending_chars (key : List Char) : ∀ c, Re.Part.char c ∉ ending key := by
  intro c
  rw [ending]
  split_ifs <;> simp

theorem ending_start (key : List Char) : Re.Part.start ∉ ending key := by
  rw [ending]
  split_ifs <;> simp

/-- A filter whose names it finds by `*` alone: it matches itself without the stars, so a special
character in it would match a name that is not of its form. -/
theorem literal_of_globs
    (h : ∀ name, ('\n' ∈ name → '\n' ∈ key) →
      (Re.run (key.map Re.part ++ ending key) true name = true ↔ Glob '*' key name)) :
    Literal key := by
  by_contra hnot
  have hself := (h (key.filter (· ≠ '*')) fun hmem => (List.mem_filter.mp hmem).1).mpr (glob_filter key)
  obtain ⟨v, hv, hglob, hline⟩ := Re.exists_not_glob hnot (ending_chars key) hself
  refine hglob ((h v fun hmem => ?_).mp hv)
  by_contra hkey
  exact hline (fun hmem' => hkey (List.mem_filter.mp hmem').1) hmem

/-- For names of every kind, what is behind the first star must be open. -/
theorem openEnded_of_globs (hkey : Literal key)
    (h : ∀ name, Re.run (key.map Re.part ++ ending key) true name = true ↔ Glob '*' key name) :
    OpenEnded key := by
  by_cases hstar : '*' ∈ key
  · obtain ⟨start, rest, rfl, hstart⟩ := List.eq_append_cons_of_mem hstar
    refine ⟨start, rest, rfl, hstart, ?_⟩
    by_contra hnot
    have hstartLiteral : Literal start := fun c hc => hkey c (List.mem_append_left _ hc)
    have hrest : Literal rest := fun c hc =>
      hkey c (List.mem_append_right _ (List.mem_cons_of_mem _ hc))
    have htail : ('*' :: rest).getLast? ≠ some '*' → ending (start ++ '*' :: rest) = [.stop] := by
      intro hlast
      rw [ending, if_neg]
      rwa [List.getLast?_append_of_ne_nil _ (List.cons_ne_nil _ _)]
    obtain ⟨v, hglob, hrun⟩ := Re.exists_not_run hrest (by simpa using hnot)
      (ending_start (start ++ '*' :: rest)) htail
    have hparts : Re.Part.start ∉ ('*' :: rest).map Re.part ++ ending (start ++ '*' :: rest) := by
      rw [List.mem_append, not_or]
      refine ⟨Re.start_not_mem_part fun c hc => hkey c (List.mem_append_right _ hc), ending_start _⟩
    have hmatch := (h (start ++ v)).mpr ((glob_append_iff hstart).mpr ⟨v, rfl, hglob⟩)
    rw [List.map_append, List.append_assoc, Re.run_chars_iff hstartLiteral hstart hparts] at hmatch
    obtain ⟨t, heq, ht⟩ := hmatch
    obtain rfl := List.append_cancel_left heq
    exact hrun ht
  · -- without a star a newline may follow
    have hlast : key.getLast? ≠ some '*' := fun heq => hstar (List.mem_of_getLast? heq)
    have hmatch : Re.run (key.map Re.part ++ ending key) true (key ++ ['\n']) = true := by
      rw [Re.run_chars_iff hkey hstar (ending_start key), ending, if_neg hlast]
      exact ⟨['\n'], rfl, rfl⟩
    have hglob := (h (key ++ ['\n'])).mp hmatch
    rw [← List.append_nil key, glob_append_iff hstar] at hglob
    obtain ⟨t, heq, ht⟩ := hglob
    rw [glob_nil_iff] at ht
    rw [ht, List.append_nil] at heq
    exact absurd (congrArg List.length heq) (by simp)

theorem run_of_openEnded (hkey : Literal key) (h : OpenEnded key) (name : List Char) :
    Re.run (key.map Re.part ++ ending key) true name = true ↔ Glob '*' key name := by
  obtain ⟨start, rest, rfl, hstart, hrest⟩ := h
  have hstartLiteral : Literal start := fun c hc => hkey c (List.mem_append_left _ hc)
  have hending : ending (start ++ '*' :: rest) = [] := by
    rw [ending, if_pos]
    rw [List.getLast?_append_of_ne_nil _ (List.cons_ne_nil _ _)]
    clear hkey
    induction rest using starsApart.induct with
    | case1 => rfl
    | case2 rest ih => exact (List.getLast?_cons_cons).trans (ih hrest)
    | case3 rest ih => exact (List.getLast?_cons_cons).trans ((List.getLast?_cons_cons).trans (ih hrest))
    | case4 rest hnil hstar hnewline =>
      rw [starsApart_eq_false hnil hstar hnewline] at hrest
      cases hrest
  rw [hending, List.append_nil, List.map_append, glob_append_iff hstart,
    Re.run_chars_iff hstartLiteral hstart (Re.start_not_mem_part fun c hc =>
      hkey c (List.mem_append_right _ hc))]
  exact exists_congr fun t => and_congr_right fun _ => Re.run_starsApart hrest

end

/-- `get_uve_regex(filt).match(uve_key)`, as the server uses it. A filter that raises ends the request
before an entry is read. -/
def regexMatch (other : List Char → Option (List Char → Bool)) (filt uve_key : String) : Bool :=
  ((get_uve_regex other filt.toList).map fun pattern => pattern uve_key.toList).getD false

theorem regexMatch_iff {other : List Char → Option (List Char → Bool)} {filt uve_key : String} :
    regexMatch other filt uve_key = true ↔ Matches other filt.toList uve_key.toList := by
  rw [regexMatch, Matches]
  cases get_uve_regex other filt.toList with
  | none => simp
  | some pattern => simp

/-- An entry passes several filters if it passes one. -/
theorem selectEntry_kfilt (us : UVEServer) (redish : Redis) (table : String) (filters : Filters)
    (parse_afilter : Bool) (kfilter : List String) {entry uve_key : String} {tail : List Char}
    (htail : (splitMax ':' 1 entry.toList)[1]? = some tail)
    (hkey : ((rsplitMax ':' 5 tail).map String.ofList)[0]? = some uve_key) :
    us.selectEntry redish table { filters with kfilt := some kfilter } parse_afilter entry =
      if ∃ filt ∈ kfilter, us.regex_match filt uve_key = true then
        us.selectEntry redish table { filters with kfilt := none } parse_afilter entry
      else some none := by
  unfold UVEServer.selectEntry
  rw [htail]
  simp only [Option.bind_eq_bind, Option.bind_some, hkey]
  by_cases hany : ∃ filt ∈ kfilter, us.regex_match filt uve_key = true
  · have hall : (kfilter.all fun filt => !us.regex_match filt uve_key) = false := by
      rw [List.all_eq_false]
      obtain ⟨filt, hfilt, hmatch⟩ := hany
      exact ⟨filt, hfilt, by simp [hmatch]⟩
    rw [if_pos hany, hall]
    rfl
  · have hall : (kfilter.all fun filt => !us.regex_match filt uve_key) = true := by
      rw [List.all_eq_true]
      intro filt hfilt
      by_contra hmatch
      exact hany ⟨filt, hfilt, by simpa using hmatch⟩
    rw [if_neg hany, hall]
    rfl

-- ---------------------------------------------------------------------------
-- The cache and the stream
-- ---------------------------------------------------------------------------

/-- The patterns of a `kfilt`; `none` when a filter raises. -/
def compilePatterns (other : List Char → Option (List Char → Bool)) (kfilter : List String) :
    Option (List (String → Bool)) :=
  kfilter.mapM fun filt =>
    (get_uve_regex other filt.toList).map fun pattern name => pattern name.toList

/-- The keys of a table that `get_cache_list` reads: if types are asked for, those that one of the
types lists; if there are patterns, those that one of them matches. -/
def UveCacheProcessor.barekeys {J : Type} (c : UveCacheProcessor J) (tfilter : List String)
    (patterns : List (String → Bool)) (table : String) : List String :=
  ((c.tableUves table).entries.map Prod.fst).filter fun bk =>
    (tfilter.isEmpty || tfilter.any fun typ => bk ∈ (c.typeTables typ).barekeys table) &&
      (patterns.isEmpty || patterns.any fun pattern => pattern bk)

/-- One of the patterns matches if one of the filters does. -/
theorem compilePatterns_any_iff {other : List Char → Option (List Char → Bool)}
    {kfilter : List String} {patterns : List (String → Bool)}
    (h : compilePatterns other kfilter = some patterns) (name : String) :
    (patterns.any fun pattern => pattern name) = true ↔
      ∃ filt ∈ kfilter, Matches other filt.toList name.toList := by
  induction kfilter generalizing patterns with
  | nil =>
    obtain rfl : patterns = [] := by simpa [compilePatterns] using h.symm
    simp
  | cons filt kfilter ih =>
    rw [compilePatterns, List.mapM_cons] at h
    obtain ⟨pattern, hpattern, h⟩ := Option.bind_eq_some_iff.mp h
    obtain ⟨rest, hrest, h⟩ := Option.bind_eq_some_iff.mp h
    obtain ⟨regex, hregex, rfl⟩ := Option.map_eq_some_iff.mp hpattern
    obtain rfl := Option.some.inj h
    have hfilt : Matches other filt.toList name.toList ↔ regex name.toList = true := by
      simp [Matches, hregex]
    rw [List.any_cons, Bool.or_eq_true, ih hrest, List.exists_mem_cons_iff, hfilt]

theorem compilePatterns_isEmpty {other : List Char → Option (List Char → Bool)}
    {kfilter : List String} {patterns : List (String → Bool)} (hne : kfilter ≠ [])
    (h : compilePatterns other kfilter = some patterns) : patterns.isEmpty = false := by
  obtain ⟨filt, rest, rfl⟩ := List.exists_cons_of_ne_nil hne
  rw [compilePatterns, List.mapM_cons] at h
  obtain ⟨pattern, -, h⟩ := Option.bind_eq_some_iff.mp h
  obtain ⟨rest, -, h⟩ := Option.bind_eq_some_iff.mp h
  obtain rfl := Option.some.inj h
  rfl

/-- With several filters the cache reads the keys that one of them matches. -/
theorem mem_barekeys_iff {J : Type} {other : List Char → Option (List Char → Bool)}
    {kfilter : List String} {patterns : List (String → Bool)} (hne : kfilter ≠ [])
    (h : compilePatterns other kfilter = some patterns) (c : UveCacheProcessor J)
    (tfilter : List String) (table bk : String) :
    bk ∈ c.barekeys tfilter patterns table ↔
      bk ∈ c.barekeys tfilter [] table ∧ ∃ filt ∈ kfilter, Matches other filt.toList bk.toList := by
  rw [← compilePatterns_any_iff h bk]
  simp only [UveCacheProcessor.barekeys, List.mem_filter, Bool.and_eq_true,
    compilePatterns_isEmpty hne h, Bool.false_or, List.isEmpty_nil, Bool.true_or, and_true,
    and_assoc]

/-- With several filters the stream goes on with the keys that one of them matches. -/
theorem keyPasses_patterns_iff {J : Type} {other : List Char → Option (List Char → Bool)}
    {kfilter : List String} {patterns : List (String → Bool)} (hne : kfilter ≠ [])
    (h : compilePatterns other kfilter = some patterns) (p : UveStreamPart J)
    {key table barekey : String} (hsplit : splitKey key = some (table, barekey)) :
    ({ p with _patterns := patterns } : UveStreamPart J).keyPasses key = some true ↔
      ({ p with _patterns := [] } : UveStreamPart J).keyPasses key = some true ∧
        ∃ filt ∈ kfilter, Matches other filt.toList barekey.toList := by
  rw [← compilePatterns_any_iff h barekey]
  simp only [UveStreamPart.keyPasses, hsplit, Option.map_some, Option.some.injEq, Bool.and_eq_true,
    compilePatterns_isEmpty hne h, Bool.false_or, List.isEmpty_nil, Bool.true_or, and_true]

/-- What several filters keep: an entry of the server's tables, a key of the cache and a key of the
stream, if one of them matches. -/
structure AnyFilterKeeps (other : List Char → Option (List Char → Bool)) (kfilter : List String) :
    Prop where
  server : ∀ (us : UVEServer) (redish : Redis) (table : String) (filters : Filters)
    (parse_afilter : Bool) (entry uve_key : String) (tail : List Char),
    us.regex_match = regexMatch other → (splitMax ':' 1 entry.toList)[1]? = some tail →
    ((rsplitMax ':' 5 tail).map String.ofList)[0]? = some uve_key →
    us.selectEntry redish table { filters with kfilt := some kfilter } parse_afilter entry =
      if ∃ filt ∈ kfilter, regexMatch other filt uve_key = true then
        us.selectEntry redish table { filters with kfilt := none } parse_afilter entry
      else some none
  cache : kfilter ≠ [] → ∀ patterns, compilePatterns other kfilter = some patterns →
    ∀ {J : Type} (c : UveCacheProcessor J) (tfilter : List String) (table bk : String),
      bk ∈ c.barekeys tfilter patterns table ↔
        bk ∈ c.barekeys tfilter [] table ∧ ∃ filt ∈ kfilter, Matches other filt.toList bk.toList
  stream : kfilter ≠ [] → ∀ patterns, compilePatterns other kfilter = some patterns →
    ∀ {J : Type} (p : UveStreamPart J) (key table barekey : String),
      splitKey key = some (table, barekey) →
      (({ p with _patterns := patterns } : UveStreamPart J).keyPasses key = some true ↔
        ({ p with _patterns := [] } : UveStreamPart J).keyPasses key = some true ∧
          ∃ filt ∈ kfilter, Matches other filt.toList barekey.toList)

/-- A filter without other constructs of `re` matches as a glob, for every name, if and only if no
character of it is special and what is behind its first star is open; for names without a newline
the first is enough. What passes several filters are the names that one of them matches. -/
theorem globs_iff (other : List Char → Option (List Char → Bool)) (key : List Char) (hne : key ≠ [])
    (hsimple : Simple key) :
    ((∀ name, Matches other key name ↔ Glob '*' key name) ↔ Literal key ∧ OpenEnded key) ∧
    ('\n' ∉ key →
      ((∀ name, '\n' ∉ name → (Matches other key name ↔ Glob '*' key name)) ↔ Literal key)) ∧
    ∀ kfilter : List String, AnyFilterKeeps other kfilter := by
  refine ⟨?_, fun hline => ?_, fun kfilter => ⟨?_, ?_, ?_⟩⟩
  · simp only [matches_iff hne hsimple]
    constructor
    · intro h
      have hliteral := literal_of_globs fun name _ => h name
      exact ⟨hliteral, openEnded_of_globs hliteral h⟩
    · intro ⟨hliteral, hopen⟩ name
      exact run_of_openEnded hliteral hopen name
  · simp only [matches_iff hne hsimple]
    constructor
    · intro h
      exact literal_of_globs fun name hname => h name fun hmem => hline (hname hmem)
    · intro hliteral name hname
      exact run_iff_glob hliteral hname
  · intro us redish table filters parse_afilter entry uve_key tail hus htail hkey
    rw [← hus]
    exact selectEntry_kfilt us redish table filters parse_afilter kfilter htail hkey
  · exact fun hfilters patterns h J c tfilter table bk =>
      mem_barekeys_iff hfilters h c tfilter table bk
  · exact fun hfilters patterns h J p key table barekey hsplit =>
      keyPasses_patterns_iff hfilters h p hsplit

/-- A brace in front of a star is a brace. -/
theorem globs_sample :
    Matches (fun _ => none) ['v', '{', '1', '*'] = Glob '*' ['v', '{', '1', '*'] ∧
      AnyFilterKeeps (fun _ => none) ["v\x7b1*", "host"] := by
  have hsimple : Simple ['v', '{', '1', '*'] := by
    refine ⟨by simp [Re.others], fun start rest heq => ?_⟩
    -- only the second character is a brace
    cases start with
    | nil => simp at heq
    | cons c start =>
      cases start with
      | nil =>
        obtain ⟨-, heq⟩ := List.cons.inj heq
        obtain ⟨-, rfl⟩ := List.cons.inj heq
        decide
      | cons d start =>
        have hmem : '{' ∈ ['1', '*'] := by
          obtain ⟨-, heq⟩ := List.cons.inj heq
          obtain ⟨-, heq⟩ := List.cons.inj heq
          rw [heq]
          simp
        exact absurd hmem (by decide)
  have hglobs := globs_iff (fun _ => none) ['v', '{', '1', '*'] (List.cons_ne_nil _ _) hsimple
  refine ⟨funext fun name => propext (hglobs.1.mpr ⟨?_, ?_⟩ name), hglobs.2.2 _⟩
  · simp [Literal]
  · exact ⟨['v', '{', '1'], [], rfl, by simp, rfl⟩

/-- The dot of `a.b` matches any character. -/
theorem not_globs :
    ¬ ∀ (other : List Char → Option (List Char → Bool)) (key : List Char), key ≠ [] →
      ∀ name, Matches other key name ↔ Glob '*' key name := by
  intro h
  have hmatch : Matches (fun _ => none) ['a', '.', 'b'] ['a', 'x', 'b'] := ⟨_, rfl, rfl⟩
  have hglob := (h (fun _ => none) ['a', '.', 'b'] (List.cons_ne_nil _ _) ['a', 'x', 'b']).mp hmatch
  have hdot := mem_of_glob hglob (c := '.') (by simp) (by simp)
  simp at hdot

end TfAnalytics.OpServer
