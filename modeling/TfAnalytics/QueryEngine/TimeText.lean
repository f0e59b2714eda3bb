import TfAnalytics.QueryEngine.Window

/-!
# Query engine — the times a query may name

`parse_time` reads `"now"`, `"now+N<unit>"`, `"now-N<unit>"` and plain numbers.
`TimeText` is that grammar with the exact value of each text, an integer.

The code agrees with it only in part. The products and sums are taken modulo
`2^64`, so an offset beyond the clock (`"now-1000000d"`) gives a time in the far
future; and of an offset the code looks at the sign, at the text up to the last
two characters and at whether a unit letter occurs at all, so it also takes
`"now-5hx` or `xnow-5dh"`.

`stringToInteger` is outside the repository: it is assumed to read the decimals
that fit 64 bits and to return 64-bit values, and may do what it likes on any
other text.

Main results:

* `parse_time_ok_iff` — the texts `parse_time` succeeds on.
* `parsedExactly_iff` — it is exact on a text if and only if the text's value
  fits 64 bits, or it is no time at all and neither branch takes it.
-/

namespace TfAnalytics.QueryEngine

-- ---------------------------------------------------------------------------
-- The grammar
-- ---------------------------------------------------------------------------

/-- The microseconds of a unit. -/
def unitScale : Char → Option Nat
  | 'h' => some (3600 * 1000000)
  | 'm' => some (60 * 1000000)
  | 's' => some 1000000
  | 'd' => some (24 * 3600 * 1000000)
  | _ => none

def IsDigits (text : List Char) : Prop := text ≠ [] ∧ ∀ c ∈ text, c.isDigit = true

def digitsNumber (digits : List Char) : Nat := Nat.ofDigitChars 10 digits 0

/-- The times a query may name and their exact values. -/
inductive TimeText (now : Nat) : List Char → Int → Prop where
  | now : TimeText now "\"now\"".toList now
  | plus {digits : List Char} {unit : Char} {scale : Nat} (hd : IsDigits digits)
      (hu : unitScale unit = some scale) :
      TimeText now ("\"now+".toList ++ digits ++ [unit, '"']) (now + digitsNumber digits * scale)
  | minus {digits : List Char} {unit : Char} {scale : Nat} (hd : IsDigits digits)
      (hu : unitScale unit = some scale) :
      TimeText now ("\"now-".toList ++ digits ++ [unit, '"']) (now - digitsNumber digits * scale)
  | number {digits : List Char} (hd : IsDigits digits) : TimeText now digits (digitsNumber digits)

/-- What the code relies on of the library's conversion to `uint64_t`. -/
structure ReadsDecimals (stringToInteger : List Char → Option Nat) : Prop where
  reads : ∀ digits, IsDigits digits → digitsNumber digits < 2 ^ 64 →
    stringToInteger digits = some (digitsNumber digits)
  uint64 : ∀ text n, stringToInteger text = some n → n < 2 ^ 64

/-- `parse_time` succeeds exactly on the times, with their exact value. -/
structure ParsedExactly (stringToInteger : List Char → Option Nat) (now : Nat)
    (relative_time : List Char) : Prop where
  exact_value : ∀ z, TimeText now relative_time z →
    ∃ usec, parse_time stringToInteger now relative_time = .ok usec ∧ (usec : Int) = z
  only_times : ∀ usec, parse_time stringToInteger now relative_time = .ok usec →
    ∃ z, TimeText now relative_time z

-- ---------------------------------------------------------------------------
-- What parse_time takes
-- ---------------------------------------------------------------------------

def unitLetters : List Char := ['h', 'm', 's', 'd']

/-- All the offset branch asks of a text: `now` and a sign behind some first
character, a number up to the last two characters, a unit letter anywhere. -/
structure TakenAsOffset (stringToInteger : List Char → Option Nat) (s : List Char) : Prop where
  sign : substr s 1 4 = some "now+".toList ∨ substr s 1 4 = some "now-".toList
  number : ∃ text, substr s 5 (sub64 s.length 7) = some text ∧ (stringToInteger text).isSome
  unit : ∃ u ∈ unitLetters, u ∈ s.tail

/-- The branch for plain numbers. -/
structure TakenAsNumber (stringToInteger : List Char → Option Nat) (s : List Char) : Prop where
  nonempty : s ≠ []
  head : substr s 1 3 ≠ some "now".toList
  number : (stringToInteger s).isSome

theorem find_last_of_pos_iff (s : List Char) (c : Char) : find_last_of s c > 0 ↔ c ∈ s.tail := by
  cases s with
  | nil => simp [find_last_of]
  | cons a rest =>
    show find_last_of (a :: rest) c > 0 ↔ c ∈ rest
    have hfind : (a :: rest).reverse.findIdx? (· == c) =
        (rest.reverse.findIdx? (· == c)).or
          (([a].findIdx? (· == c)).map (· + rest.reverse.length)) := by
      rw [List.reverse_cons, List.findIdx?_append]
    unfold find_last_of
    cases hr : rest.reverse.findIdx? (· == c) with
    | some i =>
      have hi : i < rest.length := by
        have := (List.findIdx?_eq_some_iff_getElem.mp hr).1
        simpa using this
      have hmem : c ∈ rest := by
        obtain ⟨hlt, hget, -⟩ := List.findIdx?_eq_some_iff_getElem.mp hr
        have := List.getElem_mem hlt
        rw [eq_of_beq hget] at this
        exact List.mem_reverse.mp this
      rw [hfind, hr]
      simp only [Option.some_or, List.length_cons, hmem, iff_true]
      omega
    | none =>
      have hmem : c ∉ rest := by
        intro h
        have := List.findIdx?_eq_none_iff.mp hr c (List.mem_reverse.mpr h)
        simp at this
      rw [hfind, hr]
      simp only [Option.none_or, hmem, iff_false, gt_iff_lt, not_lt, List.findIdx?_singleton]
      by_cases hac : (a == c) = true
      · simp [hac]
      · simp [hac]

variable {stringToInteger : List Char → Option Nat}

/-- The number of an offset text and the unit it is scaled by. -/
theorem parse_offset_eq (s : List Char) :
    parse_offset stringToInteger s =
      match unitLetters.find? fun u => decide (u ∈ s.tail) with
      | none => .fail
      | some u =>
        match substr s 5 (sub64 s.length 7) with
        | none => .throws
        | some digits =>
          match stringToInteger digits with
          | none => .fail
          | some n => .ok (mul64 n ((unitScale u).getD 0)) := by
  unfold parse_offset unitLetters
  simp only [find_last_of_pos_iff, List.find?_cons, List.find?_nil]
  by_cases hh : 'h' ∈ s.tail
  · simp only [hh, if_true, decide_true]
    rfl
  by_cases hm : 'm' ∈ s.tail
  · simp only [hh, hm, if_true, if_false, decide_true, decide_false]
    rfl
  by_cases hs : 's' ∈ s.tail
  · simp only [hh, hm, hs, if_true, if_false, decide_true, decide_false]
    rfl
  by_cases hd : 'd' ∈ s.tail
  · simp only [hh, hm, hs, hd, if_true, if_false, decide_true, decide_false]
    rfl
  · simp only [hh, hm, hs, hd, if_false, decide_false]

theorem parse_offset_ok_iff (s : List Char) :
    (∃ n, parse_offset stringToInteger s = .ok n) ↔
      (∃ text, substr s 5 (sub64 s.length 7) = some text ∧ (stringToInteger text).isSome) ∧
        ∃ u ∈ unitLetters, u ∈ s.tail := by
  rw [parse_offset_eq]
  cases hu : unitLetters.find? fun u => decide (u ∈ s.tail) with
  | none =>
    have hnone : ¬ ∃ u ∈ unitLetters, u ∈ s.tail := by
      rintro ⟨u, hu', hmem⟩
      have := List.find?_eq_none.mp hu u hu'
      simp [hmem] at this
    simp [hnone]
  | some u =>
    have hsome : ∃ u ∈ unitLetters, u ∈ s.tail :=
      ⟨u, List.mem_of_find?_eq_some hu, by simpa using List.find?_some hu⟩
    simp only [hsome, and_true]
    cases substr s 5 (sub64 s.length 7) with
    | none => simp
    | some text =>
      cases h : stringToInteger text with
      | none => simp [h]
      | some n => simp [h]

theorem substr_now_of_sign {s : List Char} {sign : Char}
    (h : substr s 1 4 = some (['n', 'o', 'w'] ++ [sign])) : substr s 1 3 = some "now".toList := by
  unfold substr at *
  by_cases hlen : 1 ≤ s.length
  · rw [if_pos hlen, Option.some.injEq] at *
    have := congrArg (List.take 3) h
    rw [List.take_take] at this
    simpa using this
  · rw [if_neg hlen] at h
    exact absurd h (by simp)

/-- The texts `parse_time` succeeds on. -/
theorem parse_time_ok_iff (now : Nat) (s : List Char) :
    (∃ usec, parse_time stringToInteger now s = .ok usec) ↔
      s = "\"now\"".toList ∨ TakenAsOffset stringToInteger s ∨ TakenAsNumber stringToInteger s := by
  by_cases hnow : s = "\"now\"".toList
  · simp [parse_time, hnow]
  unfold parse_time
  rw [if_neg hnow]
  -- the branches of the function: now itself, no text, an offset, a number
  cases hsub : substr s 1 3 with
  | none =>
    have hs : s = [] := by
      unfold substr at hsub
      split at hsub
      · exact absurd hsub (by simp)
      · exact List.eq_nil_of_length_eq_zero (by omega)
    subst hs
    constructor
    · rintro ⟨usec, h⟩
      exact absurd h (by simp)
    · rintro (h | h | h)
      · exact absurd h (by decide)
      · exact absurd h.sign (by simp [substr])
      · exact absurd rfl h.nonempty
  | some head =>
    have hne : s ≠ [] := by
      rintro rfl
      simp [substr] at hsub
    by_cases hhead : head = "now".toList
    · -- with now in it the text is no number, and its sign decides
      have hnum : ¬ TakenAsNumber stringToInteger s := fun h => h.head (by rw [hsub, hhead])
      have hoff : TakenAsOffset stringToInteger s ↔
          (substr s 1 4 = some "now+".toList ∨ substr s 1 4 = some "now-".toList) ∧
            ∃ n, parse_offset stringToInteger s = .ok n := by
        rw [parse_offset_ok_iff]
        exact ⟨fun h => ⟨h.sign, h.number, h.unit⟩, fun h => ⟨h.1, h.2.1, h.2.2⟩⟩
      simp only [if_pos hhead, hnow, hnum, hoff, false_or, or_false]
      cases hoffset : parse_offset stringToInteger s with
      | ok n =>
        simp only [TimeResult.ok.injEq, exists_eq', and_true]
        by_cases hplus : substr s 1 4 = some "now+".toList
        · rw [if_pos hplus]
          exact iff_of_true ⟨_, rfl⟩ (.inl hplus)
        · by_cases hminus : substr s 1 4 = some "now-".toList
          · rw [if_neg hplus, if_pos hminus]
            exact iff_of_true ⟨_, rfl⟩ (.inr hminus)
          · rw [if_neg hplus, if_neg hminus]
            exact iff_of_false (by simp) (not_or.mpr ⟨hplus, hminus⟩)
      | fail => simp
      | throws => simp
    · -- without now it is no offset
      have hoff : ¬ TakenAsOffset stringToInteger s := by
        intro h
        have hsome : substr s 1 3 = some "now".toList := by
          rcases h.sign with h | h
          · exact @substr_now_of_sign s '+' h
          · exact @substr_now_of_sign s '-' h
        rw [hsub, Option.some.injEq] at hsome
        exact hhead hsome
      have hnum : TakenAsNumber stringToInteger s ↔ (stringToInteger s).isSome :=
        ⟨fun h => h.number, fun h => ⟨hne, by simpa [hsub] using hhead, h⟩⟩
      simp only [if_neg hhead, hnow, hnum, hoff, false_or]
      cases stringToInteger s with
      | none => simp
      | some n => simp
-- ---------------------------------------------------------------------------
-- The value of a time
-- ---------------------------------------------------------------------------

theorem parse_time_lt (hsti : ReadsDecimals stringToInteger) {now : Nat} (hnow : now < 2 ^ 64)
    {s : List Char} {usec : Nat} (h : parse_time stringToInteger now s = .ok usec) :
    usec < 2 ^ 64 := by
  unfold parse_time at h
  split at h
  · rw [TimeResult.ok.injEq] at h
    omega
  split at h
  · exact absurd h (by simp)
  split at h
  · split at h
    · split at h
      · rw [TimeResult.ok.injEq] at h
        rw [← h]
        exact Nat.mod_lt _ (by decide)
      split at h
      · rw [TimeResult.ok.injEq] at h
        rw [← h]
        exact Nat.mod_lt _ (by decide)
      · exact absurd h (by simp)
    · simp_all
  · split at h
    · exact absurd h (by simp)
    next hn =>
      rw [TimeResult.ok.injEq] at h
      rw [← h]
      exact hsti.uint64 _ _ hn

/-- A letter is no digit, so the only unit letter of an offset is its unit. -/
theorem find_unitLetters {sign unit : Char} {digits : List Char} {scale : Nat}
    (hsign : sign = '+' ∨ sign = '-') (hd : IsDigits digits)
    (hu : unitScale unit = some scale) :
    unitLetters.find? (fun u => decide (u ∈ ['n', 'o', 'w', sign] ++ digits ++ [unit, '"'])) =
      some unit := by
  have hdigits : ∀ u ∈ unitLetters, u ∉ digits := by
    intro u hu hmem
    have := hd.2 u hmem
    simp only [unitLetters, List.mem_cons, List.not_mem_nil, or_false] at hu
    rcases hu with rfl | rfl | rfl | rfl <;> exact absurd this (by decide)
  have hiff : ∀ u ∈ unitLetters,
      (u ∈ ['n', 'o', 'w', sign] ++ digits ++ [unit, '"'] ↔ u = unit) := by
    intro u hmem
    have := hdigits u hmem
    simp only [unitLetters, List.mem_cons, List.not_mem_nil, or_false] at hmem
    rcases hsign with rfl | rfl <;> rcases hmem with rfl | rfl | rfl | rfl <;> simp [this]
  simp only [unitLetters, List.forall_mem_cons] at hiff
  obtain ⟨hh, hm, hs, hd', -⟩ := hiff
  simp only [unitLetters, List.find?_cons, hh, hm, hs, hd']
  unfold unitScale at hu
  split at hu
  · rfl
  · rfl
  · rfl
  · rfl
  · exact absurd hu (by simp)

theorem parse_offset_time (hsti : ReadsDecimals stringToInteger) {sign unit : Char}
    {digits : List Char} {scale : Nat} (hsign : sign = '+' ∨ sign = '-') (hd : IsDigits digits)
    (hu : unitScale unit = some scale) (hlen : digits.length + 7 < 2 ^ 64)
    (hfit : digitsNumber digits < 2 ^ 64) :
    parse_offset stringToInteger (['"', 'n', 'o', 'w', sign] ++ digits ++ [unit, '"']) =
      .ok (mul64 (digitsNumber digits) scale) := by
  have htail : (['"', 'n', 'o', 'w', sign] ++ digits ++ [unit, '"']).tail =
      ['n', 'o', 'w', sign] ++ digits ++ [unit, '"'] := rfl
  have hlength : (['"', 'n', 'o', 'w', sign] ++ digits ++ [unit, '"']).length =
      digits.length + 7 := by
    simp
  have hsub : sub64 (digits.length + 7) 7 = digits.length := by
    rw [sub64_eq (by omega) hlen]
    omega
  have htext : substr (['"', 'n', 'o', 'w', sign] ++ digits ++ [unit, '"']) 5 digits.length =
      some digits := by
    unfold substr
    rw [if_pos (by rw [hlength]; omega)]
    show some ((digits ++ [unit, '"']).take digits.length) = some digits
    rw [List.take_left]
  rw [parse_offset_eq, htail, find_unitLetters hsign hd hu, hlength, hsub, htext]
  show (match stringToInteger digits with
    | none => TimeResult.fail
    | some n => .ok (mul64 n ((unitScale unit).getD 0))) = _
  rw [hsti.reads digits hd hfit, hu]
  rfl

theorem unitScale_pos {unit : Char} {scale : Nat} (hu : unitScale unit = some scale) :
    0 < scale := by
  unfold unitScale at hu
  split at hu <;> simp at hu <;> omega

theorem parse_time_plus {now offset_usec : Nat} {rest : List Char}
    (h : parse_offset stringToInteger (['"', 'n', 'o', 'w', '+'] ++ rest) = .ok offset_usec) :
    parse_time stringToInteger now (['"', 'n', 'o', 'w', '+'] ++ rest) =
      .ok (add64 now offset_usec) := by
  have hhead : substr (['"', 'n', 'o', 'w', '+'] ++ rest) 1 3 = some "now".toList := rfl
  have hsign : substr (['"', 'n', 'o', 'w', '+'] ++ rest) 1 4 = some "now+".toList := rfl
  unfold parse_time
  rw [if_neg (by simp), hhead]
  simp only [h, hsign, if_true]

theorem parse_time_minus {now offset_usec : Nat} {rest : List Char}
    (h : parse_offset stringToInteger (['"', 'n', 'o', 'w', '-'] ++ rest) = .ok offset_usec) :
    parse_time stringToInteger now (['"', 'n', 'o', 'w', '-'] ++ rest) =
      .ok (sub64 now offset_usec) := by
  have hhead : substr (['"', 'n', 'o', 'w', '-'] ++ rest) 1 3 = some "now".toList := rfl
  have hsign : substr (['"', 'n', 'o', 'w', '-'] ++ rest) 1 4 = some "now-".toList := rfl
  have hplus : some "now-".toList ≠ some "now+".toList := by decide
  unfold parse_time
  rw [if_neg (by simp), hhead]
  simp only [h, hsign, hplus, if_true, if_false]

/-- A time whose exact value fits 64 bits is read as that value. -/
theorem parse_time_of_timeText (hsti : ReadsDecimals stringToInteger) {now : Nat}
    (hnow : now < 2 ^ 64) {s : List Char} (hlen : s.length < 2 ^ 64) {z : Int}
    (h : TimeText now s z) (h0 : 0 ≤ z) (h64 : z < 2 ^ 64) :
    ∃ usec, parse_time stringToInteger now s = .ok usec ∧ (usec : Int) = z := by
  cases h with
  | now =>
    exact ⟨now, by simp [parse_time], rfl⟩
  | @plus digits unit scale hd hu =>
    have hpos := unitScale_pos hu
    have hmul : now + digitsNumber digits * scale < 2 ^ 64 := by exact_mod_cast h64
    have hle : digitsNumber digits ≤ digitsNumber digits * scale := Nat.le_mul_of_pos_right _ hpos
    have hoff := parse_offset_time hsti (.inl rfl) hd hu (by simpa using hlen) (by omega)
    refine ⟨now + digitsNumber digits * scale, ?_, by push_cast; ring⟩
    -- the value of the offset fits, so no product or sum wraps
    have hmul64 : mul64 (digitsNumber digits) scale = digitsNumber digits * scale :=
      mul64_eq (by omega)
    rw [hmul64] at hoff
    rw [List.append_assoc] at hoff
    have hparse := @parse_time_plus stringToInteger now _ _ hoff
    rw [add64_eq hmul] at hparse
    show parse_time stringToInteger now (['"', 'n', 'o', 'w', '+'] ++ digits ++ [unit, '"']) = _
    rw [List.append_assoc, hparse]
  | @minus digits unit scale hd hu =>
    have hpos := unitScale_pos hu
    -- what is subtracted is not more than now, so nothing wraps either
    have hmul : digitsNumber digits * scale ≤ now := by
      have : (digitsNumber digits * scale : Int) ≤ now := by omega
      exact_mod_cast this
    have hle : digitsNumber digits ≤ digitsNumber digits * scale := Nat.le_mul_of_pos_right _ hpos
    have hoff := parse_offset_time hsti (.inr rfl) hd hu (by simpa using hlen) (by omega)
    refine ⟨now - digitsNumber digits * scale, ?_, by rw [Nat.cast_sub hmul]; push_cast; ring⟩
    have hmul64 : mul64 (digitsNumber digits) scale = digitsNumber digits * scale :=
      mul64_eq (by omega)
    rw [hmul64] at hoff
    rw [List.append_assoc] at hoff
    have hparse := @parse_time_minus stringToInteger now _ _ hoff
    rw [sub64_eq hmul hnow] at hparse
    show parse_time stringToInteger now (['"', 'n', 'o', 'w', '-'] ++ digits ++ [unit, '"']) = _
    rw [List.append_assoc, hparse]
  | number hd =>
    have hfit : digitsNumber s < 2 ^ 64 := by exact_mod_cast h64
    refine ⟨digitsNumber s, ?_, rfl⟩
    -- a decimal has no n and no quote, and is read as a number
    have hnone : ∀ c ∈ s, c ≠ 'n' ∧ c ≠ '"' := by
      intro c hc
      have := hd.2 c hc
      constructor
      · rintro rfl
        exact absurd this (by decide)
      · rintro rfl
        exact absurd this (by decide)
    have hne : s ≠ "\"now\"".toList := by
      rintro rfl
      exact (hnone '"' (by simp)).2 rfl
    obtain ⟨c, rest, rfl⟩ := List.exists_cons_of_ne_nil hd.1
    unfold parse_time
    rw [if_neg hne]
    show (if rest.take 3 = "now".toList then _ else _) = _
    have hhead : rest.take 3 ≠ "now".toList := by
      intro heq
      have hmem : 'n' ∈ rest.take 3 := by simp [heq]
      exact (hnone 'n' (List.mem_cons_of_mem _ (List.mem_of_mem_take hmem))).1 rfl
    rw [if_neg hhead, hsti.reads _ hd hfit]

/-- `parse_time` is exact on a text if and only if its value fits 64 bits or,
for a text that is no time, neither of the two branches takes it. -/
theorem parsedExactly_iff (hsti : ReadsDecimals stringToInteger) {now : Nat}
    (hnow : now < 2 ^ 64) {s : List Char} (hlen : s.length < 2 ^ 64) :
    ParsedExactly stringToInteger now s ↔
      (∀ z, TimeText now s z → 0 ≤ z ∧ z < 2 ^ 64) ∧
      ((¬ ∃ z, TimeText now s z) →
        ¬ TakenAsOffset stringToInteger s ∧ ¬ TakenAsNumber stringToInteger s) := by
  constructor
  · intro h
    constructor
    · intro z hz
      obtain ⟨usec, hok, hval⟩ := h.exact_value z hz
      have hlt := parse_time_lt hsti hnow hok
      omega
    · intro hno
      have hfail : ¬ ∃ usec, parse_time stringToInteger now s = .ok usec :=
        fun ⟨usec, hok⟩ => hno (h.only_times usec hok)
      rw [parse_time_ok_iff] at hfail
      exact ⟨fun ht => hfail (.inr (.inl ht)), fun ht => hfail (.inr (.inr ht))⟩
  · rintro ⟨hfit, hno⟩
    constructor
    · intro z hz
      obtain ⟨h0, h64⟩ := hfit z hz
      exact parse_time_of_timeText hsti hnow hlen hz h0 h64
    · intro usec hok
      by_contra hnot
      obtain ⟨hoff, hnum⟩ := hno hnot
      rcases (parse_time_ok_iff now s).mp ⟨usec, hok⟩ with rfl | h | h
      · exact hnot ⟨now, .now⟩
      · exact hoff h
      · exact hnum h

/-- A conversion that reads the decimals that fit and nothing else. -/
def decimalsOnly (text : List Char) : Option Nat :=
  if text ≠ [] ∧ text.all Char.isDigit ∧ digitsNumber text < 2 ^ 64 then
    some (digitsNumber text)
  else none

theorem readsDecimals_decimalsOnly : ReadsDecimals decimalsOnly where
  reads digits hd hfit := by
    rw [decimalsOnly, if_pos ⟨hd.1, List.all_eq_true.mpr hd.2, hfit⟩]
  uint64 text n h := by
    unfold decimalsOnly at h
    split at h
    next hc =>
      rw [Option.some.injEq] at h
      rw [← h]
      exact hc.2.2
    · exact absurd h (by simp)

/-- Five hours before a clock of November 2023. -/
theorem parsedExactly_iff_five_hours :
    ParsedExactly decimalsOnly 1700000000000000 "\"now-5h\"".toList ↔
      (∀ z, TimeText 1700000000000000 "\"now-5h\"".toList z → 0 ≤ z ∧ z < 2 ^ 64) ∧
      ((¬ ∃ z, TimeText 1700000000000000 "\"now-5h\"".toList z) →
        ¬ TakenAsOffset decimalsOnly "\"now-5h\"".toList ∧
        ¬ TakenAsNumber decimalsOnly "\"now-5h\"".toList) :=
  parsedExactly_iff readsDecimals_decimalsOnly (by decide) (by decide)

/-- A million days before that clock is before the epoch: the result lies
in the far future. -/
theorem not_parsedExactly_million_days :
    parse_time decimalsOnly 1700000000000000 "\"now-1000000d\"".toList =
      .ok 18362044073709551616 ∧
    ¬ ParsedExactly decimalsOnly 1700000000000000 "\"now-1000000d\"".toList := by
  refine ⟨by decide +kernel, fun h => ?_⟩
  have hdecimal : IsDigits "1000000".toList :=
    ⟨by decide, List.all_eq_true.mp (by decide)⟩
  have hscale : unitScale 'd' = some 86400000000 := rfl
  have htext : "\"now-1000000d\"".toList = "\"now-".toList ++ "1000000".toList ++ ['d', '"'] := by
    decide +kernel
  rw [htext] at h
  obtain ⟨usec, -, hval⟩ := h.exact_value _ (TimeText.minus hdecimal hscale)
  have hN : digitsNumber "1000000".toList = 1000000 := by decide +kernel
  rw [hN] at hval
  omega

end TfAnalytics.QueryEngine
