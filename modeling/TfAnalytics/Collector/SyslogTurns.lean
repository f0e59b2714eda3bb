import TfAnalytics.Collector.StructuredSyslog
import TfAnalytics.Collector.NetworksMap
import Mathlib.Tactic.Ring

/-!
# Collector — the turns of the structured syslog loop

The `do` loop of `ProcessStructuredSyslog` advances `start` by what it located and
by what `parse_syslog` read: to `end` when the message was not parsed, to `end + 1`
when it has no length (or one equal to `len`), otherwise behind the length, printed
again, plus the length. The length is read once by the loop (digits only) and once
by the grammar (`int_`, with a sign), and the two need not agree.

`p` is the current buffer and `len` the part of it without the NULs at its end; a
session's buffer is all of it. The indices are those of one received buffer, so
that `int` holds them.

Main results:

* `locate_bounds` — where a message can be located.
* `start_advances_iff` — when `start` grows, and that the loop then ends.
-/

namespace TfAnalytics.Collector

-- ---------------------------------------------------------------------------
-- One turn
-- ---------------------------------------------------------------------------

section

variable (p : Bytes) (len start : Nat)

/-- `start` as the turn leaves it after the search for the end. -/
def messageStart : Nat := (locate (p.take len) start).1

/-- `end`. -/
def messageEnd : Nat := (locate (p.take len) start).2

/-- What is given to `parse_syslog`. -/
def messageText : Bytes := (p.take (messageEnd p len start)).drop (messageStart p len start)

/-- The turn returns and keeps or discards the rest: only in a session. -/
def Incomplete (session : Bool) : Prop :=
  (len < messageEnd p len start ∨
    (messageEnd p len start = len ∧ p[messageEnd p len start - 1]? ≠ some ']')) ∧ session = true

instance (session : Bool) : Decidable (Incomplete p len start session) :=
  inferInstanceAs (Decidable (_ ∧ _))

end

/-- An integer as a `size_t`. -/
def sizeT (n : Int) : Nat := (n % 2 ^ 64).toNat

/-- `lenstr.length() + 1`. -/
def lenstrLength (msglen : Int) : Nat := (intText msglen).length + 1

/-- The next `start`; `result` is what `parse_syslog` gave, `none` when it failed, and
in it the `msglen`. -/
def nextAfter (len messageStart messageEnd : Nat) (result : Option (Option Int)) : Nat :=
  match result with
  | none => messageEnd
  | some msglen =>
    let message_len : Int := msglen.getD len
    if message_len = len then messageEnd + 1
    else sizeT (messageStart + lenstrLength (msglen.getD 0) + message_len)

variable {V : Type}

/-- The result of `parse_syslog` in a turn. -/
def parsedIn (ps : SyslogParser V) (p : Bytes) (len start : Nat) : Option (Option Int) :=
  (ps.parse_syslog (messageText p len start)).map ps.msglen

def nextStart (ps : SyslogParser V) (p : Bytes) (len start : Nat) : Nat :=
  nextAfter len (messageStart p len start) (messageEnd p len start) (parsedIn ps p len start)

/-- The `start` of the next turn, if there is one. -/
def turnNext (ps : SyslogParser V) (session : Bool) (p : Bytes) (len start : Nat) : Option Nat :=
  if Incomplete p len start session then none
  else if nextStart ps p len start < len then some (nextStart ps p len start)
  else none

/-- The `start` of the n-th turn; `none` when the loop has ended before. -/
def turnStarts (ps : SyslogParser V) (session : Bool) (p : Bytes) (len : Nat) : Nat → Option Nat
  | 0 => some 0
  | n + 1 => (turnStarts ps session p len n).bind (turnNext ps session p len)

/-- Some turn begins at `start`. -/
def Reached (ps : SyslogParser V) (session : Bool) (p : Bytes) (len start : Nat) : Prop :=
  ∃ n, turnStarts ps session p len n = some start

-- ---------------------------------------------------------------------------
-- Where a message is located
-- ---------------------------------------------------------------------------

theorem scanTo_bounds (c : Char) (p : Bytes) (k i : Nat) :
    i ≤ scanTo c p k i ∧ scanTo c p k i ≤ i + k := by
  induction k generalizing i with
  | zero => exact ⟨le_refl i, le_refl i⟩
  | succ k ih =>
    rw [scanTo]
    have := ih (i + 1)
    split <;> omega

/-- `start` moves forward, and stays before `end`. -/
theorem scanDelimiter_bounds (p : Bytes) (k start stop len_end : Nat) (hstart : start + 1 ≤ stop)
    (hstop : stop ≤ len_end) :
    start ≤ (scanDelimiter p k start stop len_end).1 ∧
      (scanDelimiter p k start stop len_end).1 < (scanDelimiter p k start stop len_end).2 ∧
      len_end ≤ (scanDelimiter p k start stop len_end).2 ∧
      (scanDelimiter p k start stop len_end).2 ≤ len_end + k := by
  induction k generalizing start stop len_end with
  | zero =>
    rw [scanDelimiter]
    omega
  | succ k ih =>
    rw [scanDelimiter]
    by_cases hend : p[len_end - 1]? = some ']'
    · rw [if_pos hend]
      omega
    · rw [if_neg hend]
      by_cases hlt : p[stop - 1]? = some '<'
      · rw [if_pos hlt]
        have := ih (stop - 1) (stop + 1) (len_end + 1) (by omega) (by omega)
        omega
      · rw [if_neg hlt]
        have := ih start (stop + 1) (len_end + 1) (by omega) (by omega)
        omega

theorem locate_bounds (p : Bytes) {start : Nat} (h : start < p.length) :
    start ≤ (locate p start).1 ∧ (locate p start).1 < (locate p start).2 ∧
      start < (locate p start).2 ∧ (locate p start).1 < p.length := by
  have hscan := scanTo_bounds ' ' p (p.length - (start + 1)) (start + 1)
  simp only [locate]
  generalize scanTo ' ' p (p.length - (start + 1)) (start + 1) = len_end at hscan ⊢
  split
  · split
    · simp only [le_refl, true_and]
      omega
    · have := scanDelimiter_bounds p (p.length - len_end) start (start + 1) len_end (le_refl _)
        hscan.1
      omega
  · simp only [le_refl, true_and]
    omega

theorem message_bounds {p : Bytes} {len start : Nat} (hle : len ≤ p.length) (h : start < len) :
    start ≤ messageStart p len start ∧ messageStart p len start < messageEnd p len start ∧
      start < messageEnd p len start ∧ messageStart p len start < len := by
  have hlen : (p.take len).length = len := List.length_take_of_le hle
  have hbounds := @locate_bounds (p.take len) start (by omega)
  rw [hlen] at hbounds
  exact hbounds

section

variable {pre w tail : Bytes}

theorem scanTo_space (hw : ' ' ∉ w) :
    scanTo ' ' (pre ++ (w ++ ' ' :: tail)) ((pre ++ (w ++ ' ' :: tail)).length - (pre.length + 1))
      (pre.length + 1) = pre.length + w.length + 1 := by
  have hk : (pre ++ (w ++ ' ' :: tail)).length - (pre.length + 1) = w.length + tail.length := by
    simp
    omega
  have hspace : (pre ++ (w ++ ' ' :: tail))[pre.length + w.length + 1 - 1]? = some ' ' := by
    rw [Nat.add_sub_cancel, List.getElem?_append_right (by omega)]
    simp
  rw [hk, scanTo_skip ' ' pre w _ hw]
  cases tail.length with
  | zero => rfl
  | succ k => rw [scanTo, if_pos hspace]

theorem prependedLength_word :
    prependedLength (pre ++ (w ++ ' ' :: tail)) pre.length (pre.length + w.length + 1) =
      if w.all Char.isDigit then min (Nat.ofDigitChars 10 w 0) LONG_MAX else 0 := by
  have hword : ((pre ++ (w ++ ' ' :: tail)).take (pre.length + w.length + 1 - 1)).drop pre.length =
      w := by
    rw [Nat.add_sub_cancel, List.take_length_add_append, List.drop_left, List.take_left]
  rw [prependedLength, hword]

/-- What begins with a word and a space is located by the word's length, if it is one,
and otherwise by the next `]`. -/
theorem locate_word (hw : ' ' ∉ w) (htail : tail ≠ []) :
    locate (pre ++ (w ++ ' ' :: tail)) pre.length =
      let mlen := if w.all Char.isDigit then min (Nat.ofDigitChars 10 w 0) LONG_MAX else 0
      if mlen ≠ 0 then (pre.length, pre.length + w.length + 1 + mlen)
      else scanDelimiter (pre ++ (w ++ ' ' :: tail)) tail.length pre.length (pre.length + 1)
        (pre.length + w.length + 1) := by
  have htail := List.length_pos_of_ne_nil htail
  have hlen : (pre ++ (w ++ ' ' :: tail)).length = pre.length + w.length + 1 + tail.length := by
    simp
    omega
  have hne : pre.length + w.length + 1 ≠ (pre ++ (w ++ ' ' :: tail)).length := by omega
  have hrest : (pre ++ (w ++ ' ' :: tail)).length - (pre.length + w.length + 1) = tail.length := by
    omega
  rw [locate]
  simp only [scanTo_space hw, prependedLength_word]
  rw [if_pos hne, hrest]

end

-- ---------------------------------------------------------------------------
-- Progress
-- ---------------------------------------------------------------------------

/-- `msglen` is an `int`. -/
def IsInt (msglen : Option Int) : Prop := ∀ m, msglen = some m → -2 ^ 31 ≤ m ∧ m < 2 ^ 31

/-- The parsed length leads to a position that is not behind `start`: it is negative,
but not so far that the sum is. -/
def GoesBack (len start messageStart : Nat) (result : Option (Option Int)) : Prop :=
  ∃ m : Int, result = some (some m) ∧ m ≠ len ∧
    0 ≤ (messageStart : Int) + lenstrLength m + m ∧
    (messageStart : Int) + lenstrLength m + m ≤ start

theorem GoesBack.negative {len start messageStart : Nat} {result : Option (Option Int)}
    (h : GoesBack len start messageStart result) (hle : start ≤ messageStart) :
    ∃ m : Int, result = some (some m) ∧ m < 0 := by
  obtain ⟨m, hm, -, -, hback⟩ := h
  exact ⟨m, hm, by unfold lenstrLength at hback; omega⟩

theorem lenstrLength_le {m : Int} (h : m.natAbs < 10 ^ 10) : lenstrLength m ≤ 12 := by
  have hdigits := (Nat.length_toDigits_le_iff (b := 10) (k := 10) (by decide) (by decide)).mpr h
  unfold lenstrLength intText
  split
  · rw [List.length_cons]
    omega
  · omega

theorem sizeT_of_nonneg {n : Int} (h0 : 0 ≤ n) (h64 : n < 2 ^ 64) : sizeT n = n.toNat := by
  unfold sizeT
  rw [Int.emod_eq_of_lt h0 h64]

theorem sizeT_of_neg {n : Int} (h0 : n < 0) (h64 : -2 ^ 64 ≤ n) :
    sizeT n = (n + 2 ^ 64).toNat := by
  unfold sizeT
  rw [← Int.add_emod_right, Int.emod_eq_of_lt (by omega) (by omega)]

theorem lt_nextAfter_iff {len start messageStart messageEnd : Nat} {result : Option (Option Int)}
    (hlen : len < 2 ^ 31) (hstart : start < len) (hms : start ≤ messageStart)
    (hmlen : messageStart < 2 ^ 31) (hme : start < messageEnd)
    (hint : ∀ msglen, result = some msglen → IsInt msglen) :
    start < nextAfter len messageStart messageEnd result ↔
      ¬ GoesBack len start messageStart result := by
  cases result with
  | none => exact iff_of_true hme fun ⟨m, hm, _⟩ => absurd hm (by simp)
  | some msglen =>
    cases msglen with
    | none =>
      refine iff_of_true ?_ fun ⟨m, hm, _⟩ => absurd hm (by simp)
      show start < if (len : Int) = len then messageEnd + 1 else _
      rw [if_pos rfl]
      omega
    | some m =>
      obtain ⟨hm, hm'⟩ := hint (some m) rfl m rfl
      show start < (if m = len then messageEnd + 1 else
        sizeT (messageStart + lenstrLength m + m)) ↔ _
      by_cases heq : m = len
      · rw [if_pos heq]
        refine iff_of_true (by omega) ?_
        rintro ⟨m', hm'', hne, -⟩
        obtain rfl : m = m' := by simpa using hm''
        exact hne heq
      · rw [if_neg heq]
        have hback : GoesBack len start messageStart (some (some m)) ↔
            0 ≤ (messageStart : Int) + lenstrLength m + m ∧
              (messageStart : Int) + lenstrLength m + m ≤ start := by
          constructor
          · rintro ⟨m', hm'', -, h⟩
            obtain rfl : m = m' := by simpa using hm''
            exact h
          · exact fun h => ⟨m, rfl, heq, h⟩
        rw [hback]
        have htext := lenstrLength_le (by omega : m.natAbs < 10 ^ 10)
        by_cases h0 : 0 ≤ (messageStart : Int) + lenstrLength m + m
        · rw [sizeT_of_nonneg h0 (by omega)]
          omega
        · -- a negative sum is a size_t beyond every buffer
          rw [sizeT_of_neg (by omega) (by omega)]
          omega

-- ---------------------------------------------------------------------------
-- The run
-- ---------------------------------------------------------------------------

section

variable {ps : SyslogParser V} {session : Bool} {p : Bytes} {len : Nat}

theorem turnNext_eq_some {start next : Nat} (h : turnNext ps session p len start = some next) :
    next = nextStart ps p len start ∧ next < len := by
  unfold turnNext at h
  split at h
  · exact absurd h (by simp)
  · split at h
    next hlt =>
      rw [Option.some.injEq] at h
      exact ⟨h.symm, h ▸ hlt⟩
    · exact absurd h (by simp)

/-- Where the loop has ended after some turns, each `start` is that of one of them. -/
theorem reached_of_ended {n : Nat} (hended : turnStarts ps session p len n = none) {start : Nat}
    (h : Reached ps session p len start) : ∃ i < n, turnStarts ps session p len i = some start := by
  obtain ⟨i, hi⟩ := h
  have hlater : ∀ k, turnStarts ps session p len (n + k) = none := by
    intro k
    induction k with
    | zero => exact hended
    | succ k ih => rw [← Nat.add_assoc, turnStarts, ih, Option.bind_none]
  refine ⟨i, lt_of_not_ge fun hle => ?_, hi⟩
  obtain ⟨k, rfl⟩ := Nat.exists_eq_add_of_le hle
  rw [hlater k] at hi
  cases hi

theorem reached_lt (hpos : 0 < len) {start : Nat} (h : Reached ps session p len start) :
    start < len := by
  obtain ⟨n, hn⟩ := h
  cases n with
  | zero =>
    obtain rfl : 0 = start := Option.some.inj hn
    exact hpos
  | succ n =>
    obtain ⟨s, -, hs⟩ := Option.bind_eq_some_iff.mp hn
    exact (turnNext_eq_some hs).2

/-- When every turn moves `start` forward the n-th turn begins at `n` or behind. -/
theorem le_of_turnStarts
    (hforward : ∀ start, Reached ps session p len start → start < nextStart ps p len start)
    {n start : Nat} (h : turnStarts ps session p len n = some start) : n ≤ start := by
  induction n generalizing start with
  | zero => exact Nat.zero_le _
  | succ n ih =>
    obtain ⟨s, hs, hnext⟩ := Option.bind_eq_some_iff.mp h
    have hle := ih hs
    have hlt := hforward s ⟨n, hs⟩
    rw [← (turnNext_eq_some hnext).1] at hlt
    omega

/-- The result of `parse_syslog` has an `int` for `msglen`. -/
def IntMsglen (ps : SyslogParser V) : Prop := ∀ v, IsInt (ps.msglen v)

theorem isInt_of_parsedIn (hps : IntMsglen ps) (start : Nat) :
    ∀ msglen, parsedIn ps p len start = some msglen → IsInt msglen := by
  intro msglen h
  obtain ⟨v, -, rfl⟩ := Option.map_eq_some_iff.mp h
  exact hps v

end

theorem sizeT_lt_iff {n : Int} {len : Nat} (hlen : len < 2 ^ 31) (hlow : -2 ^ 63 ≤ n)
    (hhigh : n < 2 ^ 63) : sizeT n < len ↔ 0 ≤ n ∧ n < len := by
  by_cases h0 : 0 ≤ n
  · rw [sizeT_of_nonneg h0 (by omega)]
    omega
  · rw [sizeT_of_neg (by omega) (by omega)]
    omega

/-- The loop that collects what is handed on makes these turns. -/
theorem syslogLoop_turn {ps : SyslogParser V} {session : Bool} {p : Bytes} (hp : p.length < 2 ^ 31)
    (hps : IntMsglen ps) {start next fuel : Nat} {handed : List (V × Bytes)} {out : Processed V}
    (hstart : start < p.length)
    (hloop : syslogLoop ps session p (fuel + 1) start handed = some out)
    (hnext : turnNext ps session p p.length start = some next) :
    ∃ handed', syslogLoop ps session p fuel next handed' = some out := by
  obtain ⟨rfl, hlt⟩ := turnNext_eq_some hnext
  have hcomplete : ¬ Incomplete p p.length start session := by
    intro h
    rw [turnNext, if_pos h] at hnext
    exact absurd hnext (by simp)
  obtain ⟨-, -, -, hmlt⟩ := message_bounds (le_refl p.length) hstart
  unfold Incomplete at hcomplete
  unfold nextStart parsedIn messageText at hlt ⊢
  unfold messageStart messageEnd at *
  rw [List.take_length] at *
  -- the byte behind the message, where a message without a length of its own goes on
  have hbegin : ¬ (locate p start).2 < (locate p start).1 := by
    have := locate_bounds p hstart
    omega
  have hbehind : (locate p start).2 + 1 < p.length →
      (0 : Int) ≤ ((locate p start).2 : Int) + 1 ∧ ((locate p start).2 : Int) + 1 < p.length := by
    omega
  rw [syslogLoop] at hloop
  simp only [if_neg hcomplete] at hloop
  split at hloop
  · exact absurd hloop (by simp)
  cases hparse : ps.parse_syslog ((p.take (locate p start).2).drop (locate p start).1) with
  -- not parsed: the next message begins at the end of this one
  | none =>
    have hlt : (locate p start).2 < p.length := by
      rw [hparse] at hlt
      exact hlt
    simp only [hparse, if_pos hlt] at hloop
    exact ⟨_, hloop⟩
  | some v =>
    rw [hparse, Option.map_some] at hlt
    rw [Option.map_some]
    simp only [hparse] at hloop
    -- parsed: where the next one begins is a matter of the length it says
    cases hm : ps.msglen v with
    | none =>
      rw [hm] at hlt hloop
      have hnext : nextAfter p.length (locate p start).1 (locate p start).2 (some none) =
          (locate p start).2 + 1 := by
        show (if (p.length : Int) = p.length then (locate p start).2 + 1 else _) = _
        rw [if_pos rfl]
      rw [hnext] at hlt ⊢
      simp only [Option.getD_none, ne_eq, not_true_eq_false, if_false, if_true, hbegin,
        if_pos (hbehind hlt)] at hloop
      exact ⟨_, hloop⟩
    | some m =>
      rw [hm] at hlt hloop
      obtain ⟨hm1, hm2⟩ := hps v m hm
      -- the length of the whole buffer counts as none
      by_cases heq : m = p.length
      · have hnext : nextAfter p.length (locate p start).1 (locate p start).2 (some (some m)) =
            (locate p start).2 + 1 := if_pos heq
        rw [hnext] at hlt ⊢
        simp only [Option.getD_some, ne_eq, heq, not_true_eq_false, if_false, if_true, hbegin,
          if_pos (hbehind hlt)] at hloop
        exact ⟨_, hloop⟩
      · have hnext : nextAfter p.length (locate p start).1 (locate p start).2 (some (some m)) =
            sizeT ((locate p start).1 + lenstrLength m + m) := if_neg heq
        have htext := lenstrLength_le (by omega : m.natAbs < 10 ^ 10)
        rw [hnext] at hlt ⊢
        -- the loop goes on only inside the buffer, where size_t has not come round
        have hrange := (sizeT_lt_iff hp (by omega) (by omega)).mp hlt
        rw [sizeT_of_nonneg hrange.1 (by omega)]
        simp only [Option.getD_some, ne_eq, heq, not_false_eq_true, if_true, if_false] at hloop
        split at hloop
        · exact absurd hloop (by simp)
        have hsum : (((locate p start).1 + (intText m).length + 1 : Nat) : Int) + m =
            (locate p start).1 + lenstrLength m + m := by
          unfold lenstrLength
          push_cast
          ring
        rw [hsum, if_pos hrange] at hloop
        exact ⟨_, hloop⟩

/-- What the loop on a buffer does with `start`. -/
structure StartAdvances (p : Bytes) (len : Nat) : Prop where
  /-- Whatever `parse_syslog` gives, a turn moves `start` forward if and only if the
  parsed length does not go back. -/
  turn : ∀ start < len, ∀ result, (∀ msglen, result = some msglen → IsInt msglen) →
    (start < nextAfter len (messageStart p len start) (messageEnd p len start) result ↔
      ¬ GoesBack len start (messageStart p len start) result)
  /-- A run in which no parsed length goes back moves forward in every turn. -/
  run : ∀ (V : Type) (ps : SyslogParser V) (session : Bool), IntMsglen ps →
    (∀ start, Reached ps session p len start →
      ¬ GoesBack len start (messageStart p len start) (parsedIn ps p len start)) →
    (∀ n start next, turnStarts ps session p len n = some start →
      turnStarts ps session p len (n + 1) = some next → start < next) ∧
    turnStarts ps session p len (len + 1) = none

theorem start_advances_iff {p : Bytes} {len : Nat} (hp : p.length < 2 ^ 31)
    (hle : len ≤ p.length) : StartAdvances p len := by
  have hturn : ∀ start < len, ∀ result, (∀ msglen, result = some msglen → IsInt msglen) →
      (start < nextAfter len (messageStart p len start) (messageEnd p len start) result ↔
        ¬ GoesBack len start (messageStart p len start) result) := by
    intro start hstart result hint
    obtain ⟨hms, -, hme, hmlt⟩ := message_bounds hle hstart
    exact lt_nextAfter_iff (by omega) hstart hms (by omega) hme hint
  refine ⟨hturn, fun V ps session hps hforward => ?_⟩
  rcases Nat.eq_zero_or_pos len with rfl | hpos
  · have hnone : ∀ n, turnStarts ps session p 0 (n + 1) = none := by
      intro n
      cases hnext : turnStarts ps session p 0 (n + 1) with
      | none => rfl
      | some next =>
        obtain ⟨s, -, hs⟩ := Option.bind_eq_some_iff.mp hnext
        exact absurd (turnNext_eq_some hs).2 (Nat.not_lt_zero _)
    exact ⟨fun n start next _ hnext => absurd hnext (by simp [hnone n]), hnone 0⟩
  have hadvance : ∀ start, Reached ps session p len start → start < nextStart ps p len start :=
    fun start hreached => (hturn start (reached_lt hpos hreached) _
      (isInt_of_parsedIn hps start)).mpr (hforward start hreached)
  constructor
  · intro n start next hn hnext
    rw [turnStarts, hn, Option.bind_some] at hnext
    rw [(turnNext_eq_some hnext).1]
    exact hadvance start ⟨n, hn⟩
  · cases hend : turnStarts ps session p len (len + 1) with
    | none => rfl
    | some start =>
      have hge := le_of_turnStarts hadvance hend
      have hlt := reached_lt hpos ⟨len + 1, hend⟩
      omega

theorem start_advances_frame : StartAdvances sampleFrame.text sampleFrame.text.length :=
  start_advances_iff (by decide) (le_refl _)

/-- The head of the grammar: `int_ >> '<'` or `'<'`, behind blanks. -/
def headParser : SyslogParser (Option Int) where
  parse_syslog text :=
    match scanInt text with
    | some (msglen, rest) =>
      if (rest.dropWhile Char.isWhitespace).head? = some '<' then some (some msglen) else none
    | none => if (text.dropWhile Char.isWhitespace).head? = some '<' then some none else none
  msglen v := v
  postParsing v := v

/-- A length with a sign is none for the scan, and -3 for the grammar: behind `-3` and
one byte it leads back to the start. -/
def signedLength : Bytes := "-3<14>Jan\t1\t1:2:3 ]".toList

theorem start_stays_at_signedLength :
    nextStart headParser signedLength 19 0 = 0 ∧
    ∀ session n, turnStarts headParser session signedLength 19 n = some 0 := by
  have hstay : nextStart headParser signedLength 19 0 = 0 := by decide +kernel
  refine ⟨hstay, fun session n => ?_⟩
  have hcomplete : ¬ Incomplete signedLength 19 0 session := by
    rintro ⟨h, -⟩
    revert h
    decide +kernel
  induction n with
  | zero => rfl
  | succ n ih =>
    rw [turnStarts, ih, Option.bind_some, turnNext, if_neg hcomplete, hstay, if_pos (by decide)]

end TfAnalytics.Collector
