import Mathlib

/-!
# Collector — searching a text for a pattern

`LineParser::SearchPattern` (parser_util.cc) counts the matches of a user-defined counter in
a log message: it looks for the next match from the end of the one before. After a match of
the empty text it looks from where it was.

* `searchLoop_of_matches`: what the loop returns;
* `searchPattern_iff`: the patterns and texts for which it returns.

`boost::regex` is a parameter: a match at a position, with what `regex_search` promises of
it. The counter is a 32-bit one.
-/

namespace TfAnalytics.Collector

/-- A compiled pattern. Where it matches at a position of a text, it gives the end of the
match. The flag is for `match_prev_avail` and `match_not_bob`, which are on in every search
but the first. -/
structure Regex where
  matchAt : List Char → Bool → Nat → Option Nat
  bounds : ∀ text flags first second, first ≤ text.length →
    matchAt text flags first = some second → first ≤ second ∧ second ≤ text.length

namespace Regex

variable (exp : Regex) (text : List Char)

/-- The leftmost match from `start` on. -/
def regex_search (flags : Bool) (start : Nat) : Option (Nat × Nat) :=
  (List.range' start (text.length + 1 - start)).findSome? fun first =>
    (exp.matchAt text flags first).map fun second => (first, second)

/-- The loop of `SearchPattern`; without fuel it has not returned. -/
def searchLoop : Nat → Bool → Nat → Nat → Option Nat
  | 0, _, _, _ => none
  | fuel + 1, flags, start, cnt =>
    match exp.regex_search text flags start with
    | none => some cnt
    | some what => searchLoop fuel true what.2 ((cnt + 1) % 2 ^ 32)

/-- `SearchPattern` returns `cnt`. -/
def SearchPattern (cnt : Nat) : Prop := ∃ fuel, exp.searchLoop text fuel false 0 0 = some cnt

-- ---------------------------------------------------------------------------
-- The matches of a text
-- ---------------------------------------------------------------------------

/-- The successive matches: each is the leftmost from the end of the one before. -/
inductive Matches : Bool → Nat → List (Nat × Nat) → Prop where
  | done {flags : Bool} {start : Nat} (h : exp.regex_search text flags start = none) :
      Matches flags start []
  | next {flags : Bool} {start : Nat} {what : Nat × Nat} {rest : List (Nat × Nat)}
      (h : exp.regex_search text flags start = some what) (hrest : Matches true what.2 rest) :
      Matches flags start (what :: rest)

/-- Where a search starts: at the beginning or where a match ended. -/
inductive Reached : Bool → Nat → Prop where
  | begin : Reached false 0
  | after {flags : Bool} {start : Nat} {what : Nat × Nat} (h : Reached flags start)
      (hsearch : exp.regex_search text flags start = some what) : Reached true what.2

/-- Where a match ends, the pattern does not match the empty text. -/
def GoesOn : Prop := ∀ start, exp.Reached text true start → exp.matchAt text true start ≠ some start

variable {exp text}

theorem regex_search_bounds {flags : Bool} {start : Nat} {what : Nat × Nat}
    (h : exp.regex_search text flags start = some what) :
    start ≤ what.1 ∧ what.1 ≤ what.2 ∧ what.2 ≤ text.length ∧
      exp.matchAt text flags what.1 = some what.2 := by
  obtain ⟨first, hfirst, hmatch⟩ := List.exists_of_findSome?_eq_some h
  obtain ⟨second, hsecond, rfl⟩ := Option.map_eq_some_iff.mp hmatch
  rw [List.mem_range'_1] at hfirst
  have hbounds := exp.bounds text flags first second (by omega) hsecond
  exact ⟨hfirst.1, hbounds.1, hbounds.2, hsecond⟩

/-- A match of the empty text where the search starts is the leftmost. -/
theorem regex_search_of_empty {flags : Bool} {start : Nat} (hstart : start ≤ text.length)
    (h : exp.matchAt text flags start = some start) :
    exp.regex_search text flags start = some (start, start) := by
  have hrange : text.length + 1 - start = text.length - start + 1 := by omega
  rw [regex_search, hrange, List.range'_succ, List.findSome?_cons, h]
  rfl

theorem reached_le {flags : Bool} {start : Nat} (h : exp.Reached text flags start) :
    start ≤ text.length := by
  cases h with
  | begin => exact Nat.zero_le _
  | after h hsearch => exact (regex_search_bounds hsearch).2.2.1

/-- The loop counts the matches. -/
theorem searchLoop_of_matches {flags : Bool} {start : Nat} {whats : List (Nat × Nat)}
    (h : exp.Matches text flags start whats) {cnt : Nat} (hcnt : cnt < 2 ^ 32) :
    exp.searchLoop text (whats.length + 1) flags start cnt = some ((cnt + whats.length) % 2 ^ 32) := by
  induction h generalizing cnt with
  | done h =>
    have hmod : (cnt + ([] : List (Nat × Nat)).length) % 2 ^ 32 = cnt := Nat.mod_eq_of_lt hcnt
    rw [hmod, searchLoop, h]
  | @next flags start what rest h hrest ih =>
    have hlt : (cnt + 1) % 2 ^ 32 < 2 ^ 32 := Nat.mod_lt _ (by decide)
    rw [List.length_cons, searchLoop, h]
    show exp.searchLoop text (rest.length + 1) true what.2 ((cnt + 1) % 2 ^ 32) = _
    rw [ih hlt, Nat.mod_add_mod, Nat.add_assoc, Nat.add_comm 1]

/-- Where the loop returns, the matches come to an end, and it has counted them. -/
theorem matches_of_searchLoop {fuel : Nat} {flags : Bool} {start cnt result : Nat}
    (hcnt : cnt < 2 ^ 32) (h : exp.searchLoop text fuel flags start cnt = some result) :
    ∃ whats, exp.Matches text flags start whats ∧ result = (cnt + whats.length) % 2 ^ 32 := by
  induction fuel generalizing flags start cnt with
  | zero => cases h
  | succ fuel ih =>
    rw [searchLoop] at h
    cases hsearch : exp.regex_search text flags start with
    | none =>
      rw [hsearch] at h
      refine ⟨[], .done hsearch, ?_⟩
      rw [List.length_nil, Nat.add_zero, Nat.mod_eq_of_lt hcnt]
      exact (Option.some.inj h).symm
    | some what =>
      rw [hsearch] at h
      obtain ⟨rest, hrest, hresult⟩ := ih (Nat.mod_lt _ (by decide)) h
      refine ⟨what :: rest, .next hsearch hrest, ?_⟩
      rw [hresult, List.length_cons, Nat.mod_add_mod, Nat.add_assoc, Nat.add_comm 1]

theorem matches_unique {flags : Bool} {start : Nat} {whats whats' : List (Nat × Nat)}
    (h : exp.Matches text flags start whats) (h' : exp.Matches text flags start whats') :
    whats = whats' := by
  induction h generalizing whats' with
  | done h =>
    cases h' with
    | done => rfl
    | next h' => rw [h] at h'; cases h'
  | next h hrest ih =>
    cases h' with
    | done h' => rw [h] at h'; cases h'
    | next h' hrest' =>
      rw [h] at h'
      obtain rfl := Option.some.inj h'
      rw [ih hrest']

/-- The matches that are left, wherever a search starts. -/
theorem matches_of_reached {whats : List (Nat × Nat)} (h : exp.Matches text false 0 whats)
    {flags : Bool} {start : Nat} (hreached : exp.Reached text flags start) :
    ∃ rest, exp.Matches text flags start rest := by
  induction hreached with
  | begin => exact ⟨whats, h⟩
  | after _ hsearch ih =>
    obtain ⟨rest, hrest⟩ := ih
    cases hrest with
    | done hnone => rw [hsearch] at hnone; cases hnone
    | next hsome hlater =>
      rw [hsearch] at hsome
      obtain rfl := Option.some.inj hsome
      exact ⟨_, hlater⟩

/-- A match of the empty text where a match ended comes again and again. -/
theorem goesOn_of_matches {whats : List (Nat × Nat)} (h : exp.Matches text false 0 whats) :
    exp.GoesOn text := by
  intro start hreached hempty
  have hsearch := regex_search_of_empty (reached_le hreached) hempty
  obtain ⟨rest, hrest⟩ := matches_of_reached h hreached
  cases hrest with
  | done hnone => rw [hsearch] at hnone; cases hnone
  | @next _ _ what later hsome hlater =>
    rw [hsearch] at hsome
    obtain rfl := Option.some.inj hsome
    have hsame := matches_unique hlater (.next hsearch hlater)
    have hlength := congrArg List.length hsame
    rw [List.length_cons] at hlength
    omega

/-- Otherwise each search starts further on. -/
theorem matches_of_goesOn (h : exp.GoesOn text) {flags : Bool} {start : Nat}
    (hreached : exp.Reached text flags start) : ∃ whats, exp.Matches text flags start whats := by
  have hrestarted : ∀ n start, exp.Reached text true start → text.length - start < n →
      ∃ whats, exp.Matches text true start whats := by
    intro n
    induction n with
    | zero => exact fun start _ hlt => absurd hlt (Nat.not_lt_zero _)
    | succ n ih =>
      intro start hreached hlt
      cases hsearch : exp.regex_search text true start with
      | none => exact ⟨[], .done hsearch⟩
      | some what =>
        obtain ⟨hfirst, hsecond, hend, hmatch⟩ := regex_search_bounds hsearch
        have hfurther : start < what.2 := by
          by_contra hnot
          have hsame : what.1 = start ∧ what.2 = start := by omega
          rw [hsame.1, hsame.2] at hmatch
          exact h start hreached hmatch
        obtain ⟨rest, hrest⟩ := ih what.2 (.after hreached hsearch) (by omega)
        exact ⟨what :: rest, .next hsearch hrest⟩
  cases hsearch : exp.regex_search text flags start with
  | none => exact ⟨[], .done hsearch⟩
  | some what =>
    obtain ⟨rest, hrest⟩ := hrestarted _ what.2 (.after hreached hsearch) (Nat.lt_succ_self _)
    exact ⟨what :: rest, .next hsearch hrest⟩

/-- The search returns the number of successive matches if and only if the pattern does not
match the empty text where a match ends, and there are fewer than 2^32 matches. -/
theorem searchPattern_iff (exp : Regex) (text : List Char) :
    (∃ whats, exp.Matches text false 0 whats ∧ exp.SearchPattern text whats.length) ↔
      exp.GoesOn text ∧ ∀ whats, exp.Matches text false 0 whats → whats.length < 2 ^ 32 := by
  constructor
  · intro ⟨whats, hwhats, fuel, hfuel⟩
    refine ⟨goesOn_of_matches hwhats, fun whats' hwhats' => ?_⟩
    obtain ⟨counted, hcounted, hlength⟩ := matches_of_searchLoop (by decide) hfuel
    obtain rfl := matches_unique hwhats hwhats'
    obtain rfl := matches_unique hwhats hcounted
    rw [Nat.zero_add] at hlength
    rw [hlength]
    exact Nat.mod_lt _ (by decide)
  · intro ⟨hgoes, hcount⟩
    obtain ⟨whats, hwhats⟩ := matches_of_goesOn hgoes .begin
    refine ⟨whats, hwhats, whats.length + 1, ?_⟩
    rw [searchLoop_of_matches hwhats (by decide), Nat.zero_add, Nat.mod_eq_of_lt (hcount whats hwhats)]

/-- The pattern `c*`. -/
def star (c : Char) : Regex where
  matchAt text _ first := some (first + ((text.drop first).takeWhile (· = c)).length)
  bounds text _ first second hfirst h := by
    obtain rfl := Option.some.inj h
    have htaken := (List.takeWhile_prefix (l := text.drop first) (· = c)).length_le
    rw [List.length_drop] at htaken
    omega

/-- It matches the empty text, so there is always one more match. -/
theorem not_searchPattern :
    ¬ ∀ (exp : Regex) (text : List Char),
      ∃ whats, exp.Matches text false 0 whats ∧ exp.SearchPattern text whats.length := by
  intro h
  obtain ⟨whats, hwhats, -⟩ := h (star 'a') "b".toList
  have hsearch : (star 'a').regex_search "b".toList false 0 = some (0, 0) := rfl
  exact goesOn_of_matches hwhats 0 (.after .begin hsearch) rfl

end Regex

end TfAnalytics.Collector
