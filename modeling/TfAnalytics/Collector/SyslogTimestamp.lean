import TfAnalytics.Lib.Delimited
import TfAnalytics.Collector.SyslogGrammar
import Mathlib.Tactic.Ring

/-!
# Collector — syslog timestamps

`SyslogParser::GetTimestamp` (syslog_collector.cc) makes microseconds since the epoch out of
the fields of a message. It hands them to Boost's dates and durations, which throw on what they
do not accept. `ClientParse` is called with each datagram.

* `clientParse_safe_iff`: when a datagram is dealt with, without an exception and without a read
  outside of it;
* `timestamp_exact_iff`: when the timestamp of an RFC 5424 message is its instant.
-/

namespace TfAnalytics.Collector

open TfAnalytics.Lib

-- ---------------------------------------------------------------------------
-- Dates and durations
-- ---------------------------------------------------------------------------

def isLeapYear (year : Nat) : Bool := year % 4 = 0 && (year % 100 ≠ 0 || year % 400 = 0)

def endOfMonthDay (year : Nat) : Nat → Nat
  | 2 => if isLeapYear year then 29 else 28
  | 4 | 6 | 9 | 11 => 30
  | _ => 31

/-- The days before a year, from the beginning of the calendar. -/
def daysBeforeYear (year : Nat) : Nat :=
  365 * (year - 1) + (year - 1) / 4 - (year - 1) / 100 + (year - 1) / 400

/-- The days from 1970-01-01. -/
def dayNumber (year month day : Nat) : Int :=
  ((daysBeforeYear year + ((List.range (month - 1)).map fun i => endOfMonthDay year (i + 1)).sum +
    day : Nat) : Int) - ((daysBeforeYear 1970 + 1 : Nat) : Int)

/-- The dates that `boost::gregorian::date` accepts. -/
def ValidDate (year month day : Nat) : Prop :=
  1400 ≤ year ∧ year ≤ 9999 ∧ 1 ≤ month ∧ month ≤ 12 ∧ 1 ≤ day ∧ day ≤ endOfMonthDay year month

instance (year month day : Nat) : Decidable (ValidDate year month day) :=
  inferInstanceAs (Decidable (_ ∧ _))

/-- An argument of `greg_year`, `greg_month` and `greg_day` is made an unsigned short. -/
def toUnsignedShort (n : Int) : Nat := (n % 2 ^ 16).toNat

/-- `boost::gregorian::date`, in days from the epoch. -/
def date (year month day : Int) : Option Int :=
  if ValidDate (toUnsignedShort year) (toUnsignedShort month) (toUnsignedShort day) then
    some (dayNumber (toUnsignedShort year) (toUnsignedShort month) (toUnsignedShort day))
  else none

/-- `bt::time_duration`, in microseconds: negative when one of its parts is. -/
def time_duration (hours minutes seconds fractional : Int) : Int :=
  let total : Int := (((hours.natAbs * 60 + minutes.natAbs) * 60 + seconds.natAbs) * 10 ^ 6 +
    fractional.natAbs : Nat)
  if hours < 0 ∨ minutes < 0 ∨ seconds < 0 ∨ fractional < 0 then -total else total

/-- A number with leading zeros. -/
def padded : Nat → Nat → Bytes
  | 0, _ => []
  | k + 1, n => padded k (n / 10) ++ [Nat.digitChar (n % 10)]

/-- `bt::duration_from_string`, in microseconds. -/
structure Durations where
  duration_from_string : Bytes → Option Int
  zero : duration_from_string "0:00".toList = some 0
  /-- Hours and minutes. -/
  hhmm : ∀ hours < 24, ∀ minutes < 60,
    duration_from_string (padded 2 hours ++ ':' :: padded 2 minutes) =
      some (((hours * 60 + minutes) * 60 * 10 ^ 6 : Nat) : Int)

/-- The local time, and its difference from the universal one in microseconds. -/
structure LocalTime where
  tm_year : Int
  tm_mon : Int
  tm_mday : Int
  tm_hour : Int
  tm_min : Int
  tm_sec : Int
  diff : Int

-- ---------------------------------------------------------------------------
-- GetTimestamp
-- ---------------------------------------------------------------------------

variable (D : Durations) (now : LocalTime) (uninit : String → Int)

/-- `GetTimestamp`: `none` when it throws. -/
def GetTimestamp (v : SyslogMap) : Option Int := do
  let day ← date (GetMapVal uninit v "year" (now.tm_year + 1900))
    (GetMapVal uninit v "month" now.tm_mon) (GetMapVal uninit v "day" now.tm_mday)
  let p := day * (86400 * 10 ^ 6) + time_duration (GetMapVal uninit v "hour" now.tm_hour)
    (GetMapVal uninit v "min" now.tm_min) (GetMapVal uninit v "sec" now.tm_sec)
    (GetMapVal uninit v "msec" 0 * 1000)
  if GetMapVal uninit v "year" 0 = 0 then some (p - now.diff)
  else
    match GetMapVals v "tz" "+0:00".toList with
    -- substr(1) of an empty text
    | [] => none
    | sign :: zone => do
      let diff ← D.duration_from_string zone
      some (if sign = '-' then p + diff else p - diff)

-- ---------------------------------------------------------------------------
-- ClientParse
-- ---------------------------------------------------------------------------

/-- `while (!*(p + len - 1)) --len`: at 0 the byte before the packet is read. -/
def trimNuls (p : Bytes) : Nat → Option Nat
  | 0 => none
  | len + 1 => if p[len]? = some (Char.ofNat 0) then trimNuls p len else some (len + 1)

/-- `ClientParse` up to the timestamp of an accepted message. `none` is an exception or a read
outside of the packet. -/
def ClientParse (p : Bytes) : Option (Option Int) := do
  let len ← trimNuls p p.length
  let (v, r) := parse_syslog (p.take len) .empty
  if r then (GetTimestamp D now uninit v).map some else some none

-- ---------------------------------------------------------------------------
-- Safety
-- ---------------------------------------------------------------------------

/-- The value of a field that is a number. -/
def intAt (v : SyslogMap) (key : String) : Option Int :=
  match v.find? key with
  | some (.int n) => some n
  | some (.str _) | none => none

/-- The year, the month and the day, or the present ones, are a date. -/
def DateOk (v : SyslogMap) : Prop :=
  ValidDate (toUnsignedShort ((intAt v "year").getD (now.tm_year + 1900)))
    (toUnsignedShort ((intAt v "month").getD now.tm_mon))
    (toUnsignedShort ((intAt v "day").getD now.tm_mday))

/-- Where there is a year, what is behind the first character of the zone is a duration. -/
def ZoneOk (v : SyslogMap) : Prop :=
  (intAt v "year").isSome → ∀ zone, v.find? "tz" = some (.str zone) →
    (D.duration_from_string (zone.drop 1)).isSome

variable {D now uninit}

theorem trimNuls_eq (p : Bytes) : ∀ len ≤ p.length, trimNuls p len =
    if (p.take len).rdropWhile (· == Char.ofNat 0) = [] then none
    else some ((p.take len).rdropWhile (· == Char.ofNat 0)).length := by
  intro len
  induction len with
  | zero => intro _; simp [trimNuls]
  | succ len ih =>
    intro hlen
    have hget : p[len]? = some p[len] := List.getElem?_eq_getElem hlen
    rw [trimNuls, hget, List.take_succ_eq_append_getElem hlen, List.rdropWhile_concat]
    by_cases hnul : p[len] = Char.ofNat 0
    · rw [if_pos (by rw [hnul]), ih (by omega)]
      simp [hnul]
    · rw [if_neg (by simpa using hnul)]
      have hne : p ≠ [] := List.ne_nil_of_length_pos (by omega)
      simp [hnul, hlen, hne]

/-- The trimmed packet, if it is not empty. -/
theorem trimNuls_length (p : Bytes) : trimNuls p p.length =
    if p.rdropWhile (· == Char.ofNat 0) = [] then none
    else some (p.rdropWhile (· == Char.ofNat 0)).length := by
  have h := trimNuls_eq p p.length le_rfl
  rwa [List.take_length] at h

/-- Fields that the grammar reads under a number's key are numbers. -/
theorem getMapVal_eq {v : SyslogMap} (hv : Reads .empty v) {key : String}
    (hkey : key ∉ ["hostname", "tz", "prog", "body"]) (default : Int) :
    GetMapVal uninit v key default = (intAt v key).getD default := by
  unfold GetMapVal intAt
  cases hfind : v.find? key with
  | none => rfl
  | some x =>
    cases x with
    | int n => rfl
    | str s =>
      rcases hv.fields key _ hfind with h | h
      · cases h
      · exact absurd h.1 hkey

/-- When the timestamp of a message is computed without an exception. -/
theorem getTimestamp_isSome_iff {v : SyslogMap} (hv : Reads .empty v) :
    (GetTimestamp D now uninit v).isSome ↔ DateOk now v ∧ ZoneOk D v := by
  have hyear := fun default => @getMapVal_eq uninit v hv "year" (by decide) default
  have hmonth := @getMapVal_eq uninit v hv "month" (by decide) now.tm_mon
  have hday := @getMapVal_eq uninit v hv "day" (by decide) now.tm_mday
  unfold GetTimestamp date
  rw [hyear, hyear, hmonth, hday]
  by_cases hdate : DateOk now v
  · have hvalid : ValidDate (toUnsignedShort ((intAt v "year").getD (now.tm_year + 1900)))
        (toUnsignedShort ((intAt v "month").getD now.tm_mon))
        (toUnsignedShort ((intAt v "day").getD now.tm_mday)) := hdate
    rw [if_pos hvalid]
    simp only [Option.bind_eq_bind, Option.bind_some, hdate, true_and]
    cases hy : intAt v "year" with
    | none => simp [ZoneOk, hy]
    | some year =>
      have hne : year ≠ 0 := by
        rintro rfl
        have := hdate.1
        rw [hy] at this
        exact absurd (show 1400 ≤ 0 from this) (by decide)
      rw [Option.getD_some, if_neg hne]
      unfold GetMapVals ZoneOk
      rw [hy]
      cases htz : v.find? "tz" with
      | none =>
        simp only [Option.isSome_some, reduceCtorEq, false_implies, implies_true, iff_true]
        show (((D.duration_from_string "0:00".toList).bind _).isSome) = true
        rw [D.zero]
        rfl
      | some x =>
        rcases hv.fields "tz" x htz with h | h
        · cases h
        · cases x with
          | int n => exact absurd h.1 (by decide)
          | str s =>
            obtain ⟨sign, zone, rfl⟩ := List.exists_cons_of_ne_nil (h.2 rfl)
            simp only [Option.isSome_some, true_implies, Option.some.injEq, Holder.str.injEq,
              forall_eq', List.drop_succ_cons, List.drop_zero]
            cases D.duration_from_string zone <;> rfl
  · have hnone : ¬ ValidDate (toUnsignedShort ((intAt v "year").getD (now.tm_year + 1900)))
        (toUnsignedShort ((intAt v "month").getD now.tm_mon))
        (toUnsignedShort ((intAt v "day").getD now.tm_mday)) := hdate
    rw [if_neg hnone]
    simp [hdate]

/-- A datagram is dealt with exactly when it has a byte that is not NUL and, where its message
is accepted, the fields are a date and the zone a duration. -/
theorem clientParse_safe_iff (D : Durations) (now : LocalTime) (uninit : String → Int) (p : Bytes) :
    (ClientParse D now uninit p).isSome ↔ (∃ c ∈ p, c ≠ Char.ofNat 0) ∧
      ∀ v, parse_syslog (p.rdropWhile (· == Char.ofNat 0)) .empty = (v, true) →
        DateOk now v ∧ ZoneOk D v := by
  have hnil : p.rdropWhile (· == Char.ofNat 0) = [] ↔ ¬ ∃ c ∈ p, c ≠ Char.ofNat 0 := by
    rw [List.rdropWhile_eq_nil_iff]
    simp
  rw [ClientParse, trimNuls_length]
  by_cases hne : p.rdropWhile (· == Char.ofNat 0) = []
  · rw [if_pos hne]
    exact iff_of_false (by simp) fun h => hnil.mp hne h.1
  · have htake : p.take (p.rdropWhile (· == Char.ofNat 0)).length =
        p.rdropWhile (· == Char.ofNat 0) :=
      (List.prefix_iff_eq_take.mp (List.rdropWhile_prefix _ _)).symm
    rw [if_neg hne]
    simp only [Option.bind_eq_bind, Option.bind_some, htake, not_not.mp (mt hnil.mpr hne), true_and]
    rcases hparse : parse_syslog (p.rdropWhile (· == Char.ofNat 0)) .empty with ⟨v, r⟩
    have hv : Reads .empty v := by
      have := parse_syslog_reads (p.rdropWhile (· == Char.ofNat 0)) .empty
      rwa [hparse] at this
    cases r with
    | false => simp
    | true => simp [getTimestamp_isSome_iff hv]

theorem padded_digits (k n : Nat) : ∀ c ∈ padded k n, c.isDigit = true := by
  induction k generalizing n with
  | zero => simp [padded]
  | succ k ih =>
    intro c hc
    rcases List.mem_append.mp hc with hc | hc
    · exact ih _ c hc
    · rw [List.mem_singleton.mp hc, Nat.isDigit_digitChar, decide_eq_true_eq]
      omega

theorem length_padded (k n : Nat) : (padded k n).length = k := by
  induction k generalizing n with
  | zero => rfl
  | succ k ih => rw [padded, List.length_append, ih, List.length_singleton]

theorem ofDigitChars_padded {k n : Nat} (h : n < 10 ^ k) :
    Nat.ofDigitChars 10 (padded k n) 0 = n := by
  induction k generalizing n with
  | zero =>
    have : n = 0 := by omega
    subst this
    rfl
  | succ k ih =>
    have hdiv : n / 10 < 10 ^ k := by
      rw [pow_succ] at h
      omega
    rw [padded, Nat.ofDigitChars_append, ih hdiv,
      Nat.ofDigitChars_cons_digitChar_of_lt_ten (by omega), Nat.ofDigitChars_nil]
    omega

/-- Hours and minutes, and nothing else. -/
def hoursMinutes (text : Bytes) : Option Int :=
  match splitFirst ':' text with
  | none => none
  | some (hours, minutes) =>
    if hours.all Char.isDigit ∧ minutes.all Char.isDigit then
      some (((Nat.ofDigitChars 10 hours 0 * 60 + Nat.ofDigitChars 10 minutes 0) * 60 * 10 ^ 6 :
        Nat) : Int)
    else none

def hoursMinutesDurations : Durations where
  duration_from_string := hoursMinutes
  zero := by decide
  hhmm := by
    intro hours hhours minutes hminutes
    have hcolon : ':' ∉ padded 2 hours := fun h => absurd (padded_digits 2 hours _ h) (by decide)
    have hall : ∀ k n, (padded k n).all Char.isDigit = true :=
      fun k n => List.all_eq_true.mpr (padded_digits k n)
    simp only [hoursMinutes, splitFirst_append hcolon, hall, and_self, if_true]
    rw [ofDigitChars_padded (by omega), ofDigitChars_padded (by omega)]

def newYear2020 : LocalTime where
  tm_year := 120
  tm_mon := 0
  tm_mday := 1
  tm_hour := 0
  tm_min := 0
  tm_sec := 0
  diff := 0

/-- With a packet of a single NUL the byte before it is read. -/
theorem not_clientParse_safe : ¬ ∀ p : Bytes, p ≠ [] →
    (ClientParse hoursMinutesDurations newYear2020 (fun _ => 0) p).isSome := by
  intro h
  have hnul := h [Char.ofNat 0] (by decide)
  rw [ClientParse, trimNuls_length] at hnul
  exact absurd hnul (by decide)

-- ---------------------------------------------------------------------------
-- RFC 5424
-- ---------------------------------------------------------------------------

/-- The zone of a timestamp. -/
inductive Zone
  | utc
  | offset (minus : Bool) (hours minutes : Nat)

def Zone.text : Zone → Bytes
  | utc => ['Z']
  | offset minus hours minutes =>
    (if minus then '-' else '+') :: (padded 2 hours ++ ':' :: padded 2 minutes)

/-- What is ahead of universal time, in microseconds. -/
def Zone.ahead : Zone → Int
  | utc => 0
  | offset minus hours minutes =>
    let diff : Int := ((hours * 60 + minutes) * 60 * 10 ^ 6 : Nat)
    if minus then -diff else diff

def Zone.Valid : Zone → Prop
  | utc => True
  | offset _ hours minutes => hours < 24 ∧ minutes < 60

/-- A timestamp of RFC 5424 from 1970 on. -/
structure Rfc5424Time where
  year : Nat
  month : Nat
  day : Nat
  hour : Nat
  minute : Nat
  second : Nat
  /-- The digits of the fraction. -/
  fraction : Bytes
  zone : Zone
  year_ge : 1970 ≤ year
  date : ValidDate year month day
  time : hour < 24 ∧ minute < 60 ∧ second < 60
  digits : ∀ c ∈ fraction, c.isDigit = true
  length : 1 ≤ fraction.length ∧ fraction.length ≤ 6
  zoneValid : zone.Valid

namespace Rfc5424Time

variable (t : Rfc5424Time)

def text : Bytes :=
  padded 4 t.year ++ '-' :: (padded 2 t.month ++ '-' :: (padded 2 t.day ++ 'T' ::
    (padded 2 t.hour ++ ':' :: (padded 2 t.minute ++ ':' :: (padded 2 t.second ++ '.' ::
      (t.fraction ++ t.zone.text))))))

/-- The fraction as a number. -/
def fractionNumber : Nat := Nat.ofDigitChars 10 t.fraction 0

/-- The microseconds from the epoch to the instant. -/
def instant : Int :=
  dayNumber t.year t.month t.day * (86400 * 10 ^ 6) +
    (((t.hour * 60 + t.minute) * 60 + t.second) * 10 ^ 6 +
      t.fractionNumber * 10 ^ (6 - t.fraction.length) : Nat) - t.zone.ahead

end Rfc5424Time

/-- A message with such a timestamp. -/
structure Rfc5424Message where
  msglen : Option Nat
  facsev : Nat
  version : Nat
  time : Rfc5424Time
  rest : Bytes
  msglen_lt : ∀ n ∈ msglen, n < 2 ^ 31
  facsev_lt : facsev < 2 ^ 31
  version_lt : version < 2 ^ 31

def Rfc5424Message.text (m : Rfc5424Message) : Bytes :=
  (m.msglen.elim [] fun n => Nat.toDigits 10 n ++ [' ']) ++ '<' :: (Nat.toDigits 10 m.facsev ++
    '>' :: (Nat.toDigits 10 m.version ++ ' ' :: (m.time.text ++ ' ' :: m.rest)))

theorem int_padded {k n : Nat} (hk : k ≠ 0) (h : n < 10 ^ k) (hlt : n < 2 ^ 31) {c : Char}
    (hc : c.isDigit = false) (rest : Bytes) :
    int_ (padded k n ++ c :: rest) = some ((n : Int), c :: rest) := by
  have hread := int_digits (padded_digits k n)
    (List.ne_nil_of_length_pos (by rw [length_padded]; omega))
    (by rw [ofDigitChars_padded h]; exact hlt) hc rest
  rwa [ofDigitChars_padded h] at hread

theorem int_toDigits {n : Nat} (hlt : n < 2 ^ 31) {c : Char} (hc : c.isDigit = false)
    (rest : Bytes) : int_ (Nat.toDigits 10 n ++ c :: rest) = some ((n : Int), c :: rest) := by
  have hdigits : ∀ c ∈ Nat.toDigits 10 n, c.isDigit = true :=
    fun _ => Nat.isDigit_of_mem_toDigits (by decide) (by decide)
  have hread := int_digits hdigits Nat.toDigits_ne_nil
    (by rw [Nat.ofDigitChars_ten_toDigits]; exact hlt) hc rest
  rwa [Nat.ofDigitChars_ten_toDigits] at hread

theorem intField_step {key : String} {read : Bytes → Option (Int × Bytes)} {text rest : Bytes}
    {n : Int} (h : read text = some (n, rest)) (v : SyslogMap) :
    intField key read v text = (v.insert key (.int n), some rest) :=
  Phrase.token_of_some h v

theorem litPhrase_step {s : String} {c : Char} (hs : s.toList = [c]) (hc : isSpace c = false)
    (v : SyslogMap) (rest : Bytes) : litPhrase s v (c :: rest) = (v, some rest) := by
  have hlit : lit s.toList (c :: rest) = some ((), rest) := by
    rw [hs]
    exact lit_cons hc rest
  exact Phrase.token_of_some hlit v

/-- The relation of the maps before and after the hostname and the content. -/
def AfterZone (v v' : SyslogMap) : Prop := Reads v v' ∧ SameAt "tz" v v'

theorem keepsFields_afterZone : KeepsFields AfterZone ["hostname", "prog", "pid", "body"] where
  refl v := ⟨.refl v, rfl⟩
  trans v₁ v₂ v₃ h h' := ⟨h.1.trans _ _ _ h'.1, h.2.trans _ _ _ h'.2⟩
  insert key hkey x hx v := ⟨.insert hx v,
    (@keepsFields_sameAt "tz" ["hostname", "prog", "pid", "body"] (by decide)).insert
      key hkey x hx v⟩

/-- The fields of the priority. -/
theorem priority_run (m : Rfc5424Message) (rest : Bytes) :
    ∃ v, priority .empty ((m.msglen.elim [] fun n => Nat.toDigits 10 n ++ [' ']) ++
      '<' :: (Nat.toDigits 10 m.facsev ++ '>' :: rest)) = (v, some rest) := by
  have hpri : ∀ v, ∃ v', Phrase.seq [litPhrase "<", intField "facsev" int_, litPhrase ">"] v
      ('<' :: (Nat.toDigits 10 m.facsev ++ '>' :: rest)) = (v', some rest) := by
    intro v
    refine ⟨v.insert "facsev" (.int m.facsev), ?_⟩
    rw [Phrase.seq_cons_of_some (litPhrase_step rfl (by decide) v _),
      Phrase.seq_cons_of_some (intField_step (int_toDigits m.facsev_lt (by decide) rest) v),
      Phrase.seq_cons_of_some (litPhrase_step rfl (by decide) _ rest), Phrase.seq_nil]
  cases hlen : m.msglen with
  | none =>
    obtain ⟨v, hv⟩ := hpri .empty
    refine ⟨v, ?_⟩
    have hnone : int_ ('<' :: (Nat.toDigits 10 m.facsev ++ '>' :: rest)) = none := rfl
    have hfirst : Phrase.seq [intField "msglen" int_, litPhrase "<", intField "facsev" int_,
        litPhrase ">"] .empty ('<' :: (Nat.toDigits 10 m.facsev ++ '>' :: rest)) =
          (.empty, none) :=
      Phrase.seq_cons_of_none (Phrase.token_of_none hnone _) _
    rw [priority, Option.elim_none, List.nil_append, Phrase.alt_of_none hfirst, hv]
  | some n =>
    have hn := m.msglen_lt n hlen
    have hread : int_ (Nat.toDigits 10 n ++ ' ' :: '<' :: (Nat.toDigits 10 m.facsev ++
        '>' :: rest)) = _ := int_toDigits hn (by decide) _
    have hblank : ∀ v, litPhrase "<" v (' ' :: '<' :: (Nat.toDigits 10 m.facsev ++ '>' :: rest)) =
        (v, some (Nat.toDigits 10 m.facsev ++ '>' :: rest)) := by
      intro v
      refine Phrase.token_of_some (b := ()) ?_ v
      rw [lit, skip_blank, ← lit]
      exact lit_cons (by decide) _
    refine ⟨(OrderedMap.empty.insert "msglen" (.int n)).insert "facsev" (.int m.facsev), ?_⟩
    rw [priority, Option.elim_some, List.append_assoc, List.singleton_append]
    refine Phrase.alt_of_some ?_ _
    rw [Phrase.seq_cons_of_some (intField_step hread .empty),
      Phrase.seq_cons_of_some (hblank _),
      Phrase.seq_cons_of_some (intField_step (int_toDigits m.facsev_lt (by decide) rest) _),
      Phrase.seq_cons_of_some (litPhrase_step rfl (by decide) _ rest), Phrase.seq_nil]

theorem Rfc5424Time.text_append (t : Rfc5424Time) (rest : Bytes) :
    t.text ++ rest = padded 4 t.year ++ '-' :: (padded 2 t.month ++ '-' :: (padded 2 t.day ++
      'T' :: (padded 2 t.hour ++ ':' :: (padded 2 t.minute ++ ':' :: (padded 2 t.second ++
        '.' :: (t.fraction ++ (t.zone.text ++ rest))))))) := by
  simp [text]

/-- A zone begins with a character that is not a digit. -/
theorem Zone.text_cons (zone : Zone) : ∃ c rest, zone.text = c :: rest ∧ c.isDigit = false := by
  cases zone with
  | utc => exact ⟨'Z', [], rfl, by decide⟩
  | offset minus hours minutes =>
    refine ⟨_, _, rfl, ?_⟩
    cases minus <;> decide

/-- The fields of the date and the time. -/
def Rfc5424Time.insertFields (t : Rfc5424Time) (v : SyslogMap) : SyslogMap :=
  ((((((v.insert "year" (.int t.year)).insert "month" (.int t.month)).insert "day"
    (.int t.day)).insert "hour" (.int t.hour)).insert "min" (.int t.minute)).insert "sec"
    (.int t.second)).insert "msec" (.int t.fractionNumber)

/-- The field of the zone. -/
def Zone.insertField : Zone → SyslogMap → SyslogMap
  | utc, v => v
  | offset minus hours minutes, v =>
    v.insert "tz" (.str (Zone.offset minus hours minutes).text)

theorem zone_run (zone : Zone) (v : SyslogMap) (rest : Bytes) :
    Phrase.alt (litPhrase "Z") (textField "tz" (word fun c => c ≠ ' ')) v
      (zone.text ++ ' ' :: rest) = (zone.insertField v, some (' ' :: rest)) := by
  cases zone with
  | utc => exact Phrase.alt_of_some (litPhrase_step rfl (by decide) v _) _
  | offset minus hours minutes =>
    have hsign : isSpace (if minus then '-' else '+') = false ∧
        (if minus then '-' else '+') ≠ ' ' ∧ (if minus then '-' else '+') ≠ 'Z' := by
      cases minus <;> decide
    have hdigits : ∀ k n, ∀ c ∈ padded k n, c ≠ ' ' := by
      rintro k n c hc rfl
      exact absurd (padded_digits k n ' ' hc) (by decide)
    have hlit : litPhrase "Z" v ((Zone.offset minus hours minutes).text ++ ' ' :: rest) =
        (v, none) := by
      refine Phrase.token_of_none ?_ v
      rw [Zone.text, List.cons_append, lit, skip_cons hsign.1, if_neg]
      intro hprefix
      exact hsign.2.2 (List.cons_prefix_cons.mp hprefix).1.symm
    rw [Phrase.alt_of_none hlit]
    refine Phrase.token_of_some ?_ v
    refine word_append hsign.1 ?_ (by decide) rest
    intro c hc
    simp only [List.mem_cons, List.mem_append] at hc
    rw [decide_eq_true_eq]
    rcases hc with rfl | hc | rfl | hc
    · exact hsign.2.1
    · exact hdigits 2 hours c hc
    · decide
    · exact hdigits 2 minutes c hc

theorem endOfMonthDay_le (year month : Nat) : endOfMonthDay year month ≤ 31 := by
  unfold endOfMonthDay
  split
  · split <;> decide
  all_goals decide

/-- The date and the time are read, and their fields are there; after them only fields of
other keys are added. -/
theorem isoHeader_run (t : Rfc5424Time) {version : Nat} (hversion : version < 2 ^ 31)
    (v : SyslogMap) (rest : Bytes) :
    AfterZone (t.zone.insertField (t.insertFields (v.insert "version" (.int version))))
      (isoHeader v (Nat.toDigits 10 version ++ ' ' :: (t.text ++ ' ' :: rest))).1 := by
  obtain ⟨c, zone, hzone, hc⟩ := t.zone.text_cons
  have hfraction : int_ (t.fraction ++ (t.zone.text ++ ' ' :: rest)) =
      some ((t.fractionNumber : Int), t.zone.text ++ ' ' :: rest) := by
    rw [hzone, List.cons_append]
    refine int_digits t.digits (List.ne_nil_of_length_pos t.length.1) ?_ hc _
    exact lt_of_lt_of_le (ofDigitChars_lt t.digits)
      (le_trans (Nat.pow_le_pow_right (by decide) t.length.2) (by decide))
  have hyear : t.year < 10 ^ 4 := by have := t.date.2.1; omega
  have hmonth : t.month < 10 ^ 2 := by have := t.date.2.2.2.1; omega
  have hday : t.day < 10 ^ 2 := by
    have := t.date.2.2.2.2.2
    have := endOfMonthDay_le t.year t.month
    omega
  have htwo : ∀ n c rest, n < 10 ^ 2 → c.isDigit = false →
      int_ (padded 2 n ++ c :: rest) = some ((n : Int), c :: rest) :=
    fun n c rest hn hc => int_padded (by decide) hn (by omega) hc rest
  rw [isoHeader, t.text_append,
    Phrase.seq_cons_of_some (intField_step (int_toDigits hversion (by decide) _) v),
    Phrase.seq_cons_of_some (intField_step ((int_blank _).trans
      (int_padded (by decide) hyear (by omega) (by decide) _)) _),
    Phrase.seq_cons_of_some (litPhrase_step rfl (by decide) _ _),
    Phrase.seq_cons_of_some (intField_step (htwo t.month _ _ hmonth (by decide)) _),
    Phrase.seq_cons_of_some (litPhrase_step rfl (by decide) _ _),
    Phrase.seq_cons_of_some (intField_step (htwo t.day _ _ hday (by decide)) _),
    Phrase.seq_cons_of_some (litPhrase_step rfl (by decide) _ _),
    Phrase.seq_cons_of_some (intField_step
      (htwo t.hour _ _ (by have := t.time.1; omega) (by decide)) _),
    Phrase.seq_cons_of_some (litPhrase_step rfl (by decide) _ _),
    Phrase.seq_cons_of_some (intField_step
      (htwo t.minute _ _ (by have := t.time.2.1; omega) (by decide)) _),
    Phrase.seq_cons_of_some (litPhrase_step rfl (by decide) _ _),
    Phrase.seq_cons_of_some (intField_step
      (htwo t.second _ _ (by have := t.time.2.2; omega) (by decide)) _),
    Phrase.seq_cons_of_some (litPhrase_step rfl (by decide) _ _),
    Phrase.seq_cons_of_some (intField_step hfraction _),
    Phrase.seq_cons_of_some (zone_run t.zone _ rest)]
  refine Phrase.Always.seq keepsFields_afterZone.refl keepsFields_afterZone.trans ?_ _ _
  simp only [List.forall_mem_singleton]
  exact always_word keepsFields_afterZone (by decide) (by decide) _

/-- A number is not the name of a month. -/
theorem bsdHeader_digit {d : Char} (hd : d.isDigit = true) (v : SyslogMap) (rest : Bytes) :
    bsdHeader v (d :: rest) = (v, none) := by
  have hnames : ∀ month ∈ monthNames, month.1.toList.head?.map Char.isDigit = some false := by
    decide
  have hnone : months (d :: rest) = none := by
    refine List.findSome?_eq_none_iff.mpr fun month hmonth => if_neg fun hprefix => ?_
    have hhead := hnames month hmonth
    rw [skip_cons (not_isSpace_of_isDigit hd)] at hprefix
    cases hname : month.1.toList with
    | nil => simp [hname] at hhead
    | cons c cs =>
      rw [hname] at hprefix hhead
      obtain rfl := (List.cons_prefix_cons.mp hprefix).1
      simp [hd] at hhead
  exact Phrase.seq_cons_of_none (Phrase.token_of_none hnone v) _

/-- The fields of the message: those of the date, the time and the zone are the timestamp's. -/
theorem message_run (m : Rfc5424Message) : ∃ v : SyslogMap,
    (∀ key ∉ ["msglen", "facsev"], v.find? key = none) ∧
      AfterZone (m.time.zone.insertField
        (m.time.insertFields (v.insert "version" (.int m.version))))
        (parse_syslog m.text .empty).1 := by
  obtain ⟨v, hv⟩ := priority_run m (Nat.toDigits 10 m.version ++
    ' ' :: (m.time.text ++ ' ' :: m.rest))
  refine ⟨v, fun key hkey => ?_, ?_⟩
  · have hsame := always_priority (@keepsFields_sameAt key ["msglen", "facsev"] hkey)
      (fun _ h => h) .empty ((m.msglen.elim [] fun n => Nat.toDigits 10 n ++ [' ']) ++
        '<' :: (Nat.toDigits 10 m.facsev ++ '>' :: (Nat.toDigits 10 m.version ++
          ' ' :: (m.time.text ++ ' ' :: m.rest))))
    rw [hv] at hsame
    exact hsame
  · have hiso := isoHeader_run m.time m.version_lt v m.rest
    obtain ⟨d, ds, hdigits⟩ := List.exists_cons_of_ne_nil
      (@Nat.toDigits_ne_nil m.version 10)
    have hd : d.isDigit = true := Nat.isDigit_of_mem_toDigits (by decide) (by decide)
      (hdigits ▸ List.mem_cons_self : d ∈ Nat.toDigits 10 m.version)
    have hbsd : bsdHeader v (Nat.toDigits 10 m.version ++ ' ' :: (m.time.text ++ ' ' :: m.rest)) =
        (v, none) := by
      rw [hdigits]
      exact bsdHeader_digit hd v _
    rw [fst_parse_syslog, Rfc5424Message.text, syslogMessage, Phrase.seq_cons_of_some hv]
    rcases hres : isoHeader v (Nat.toDigits 10 m.version ++ ' ' :: (m.time.text ++ ' ' :: m.rest))
      with ⟨v', _ | rest⟩
    · rw [hres] at hiso
      rw [Phrase.seq_cons_of_none ((Phrase.alt_of_none hbsd _).trans hres)]
      exact hiso
    · rw [hres] at hiso
      rw [Phrase.seq_cons_of_some ((Phrase.alt_of_none hbsd _).trans hres)]
      refine keepsFields_afterZone.trans _ _ _ hiso ?_
      refine Phrase.Always.seq keepsFields_afterZone.refl keepsFields_afterZone.trans ?_ _ _
      simp only [List.forall_mem_singleton]
      exact always_content keepsFields_afterZone (by decide)

/-- The fields that `GetTimestamp` reads. -/
theorem message_fields (m : Rfc5424Message) (uninit : String → Int) {v : SyslogMap}
    (hv : v = (parse_syslog m.text .empty).1) :
    (∀ d, GetMapVal uninit v "year" d = m.time.year) ∧
      (∀ d, GetMapVal uninit v "month" d = m.time.month) ∧
      (∀ d, GetMapVal uninit v "day" d = m.time.day) ∧
      (∀ d, GetMapVal uninit v "hour" d = m.time.hour) ∧
      (∀ d, GetMapVal uninit v "min" d = m.time.minute) ∧
      (∀ d, GetMapVal uninit v "sec" d = m.time.second) ∧
      (∀ d, GetMapVal uninit v "msec" d = m.time.fractionNumber) ∧
      GetMapVals v "tz" "+0:00".toList =
        match m.time.zone with
        | .utc => "+0:00".toList
        | .offset minus hours minutes => (Zone.offset minus hours minutes).text := by
  subst hv
  obtain ⟨v, hnone, hreads, htz⟩ := message_run m
  have hint : ∀ key n, (m.time.insertFields (v.insert "version" (.int m.version))).find? key =
      some (.int n) → key ≠ "tz" → ∀ d,
        GetMapVal uninit (parse_syslog m.text .empty).1 key d = n := by
    intro key n hkey hne d
    have hzone : (m.time.zone.insertField
        (m.time.insertFields (v.insert "version" (.int m.version)))).find? key =
          some (.int n) := by
      cases m.time.zone with
      | utc => exact hkey
      | offset minus hours minutes =>
        rw [Zone.insertField, OrderedMap.find?_insert, if_neg hne]
        exact hkey
    rw [GetMapVal, hreads.extends_ key _ hzone]
  refine ⟨hint _ _ ?_ (by decide), hint _ _ ?_ (by decide), hint _ _ ?_ (by decide),
    hint _ _ ?_ (by decide), hint _ _ ?_ (by decide), hint _ _ ?_ (by decide),
    hint _ _ ?_ (by decide), ?_⟩
  iterate 7
    simp [Rfc5424Time.insertFields, OrderedMap.find?_insert, hnone]
  have hbefore : (m.time.insertFields (v.insert "version" (.int m.version))).find? "tz" = none := by
    simp [Rfc5424Time.insertFields, OrderedMap.find?_insert, hnone]
  unfold GetMapVals
  rw [SameAt] at htz
  rw [htz]
  cases m.time.zone with
  | utc => rw [Zone.insertField, hbefore]
  | offset minus hours minutes =>
    rw [Zone.insertField, OrderedMap.find?_insert, if_pos rfl, hbefore]
    rfl

/-- The timestamp of the message is its instant exactly when the fraction has three digits or is
zero. -/
theorem timestamp_exact_iff (D : Durations) (now : LocalTime) (uninit : String → Int)
    (m : Rfc5424Message) :
    GetTimestamp D now uninit (parse_syslog m.text .empty).1 = some m.time.instant ↔
      m.time.fraction.length = 3 ∨ m.time.fractionNumber = 0 := by
  obtain ⟨hyear, hmonth, hday, hhour, hmin, hsec, hmsec, htz⟩ := message_fields m uninit rfl
  have hdate := m.time.date
  obtain ⟨-, hyear_le, -, hmonth_le, -, hday_le⟩ := m.time.date
  have hle := endOfMonthDay_le m.time.year m.time.month
  -- the fields of the date and the time are in range, so the narrowing loses nothing
  have hshort : ∀ n : Nat, n < 2 ^ 16 → toUnsignedShort (n : Int) = n := by
    intro n hn
    unfold toUnsignedShort
    omega
  have hduration : time_duration m.time.hour m.time.minute m.time.second
      ((m.time.fractionNumber : Int) * 1000) =
        (((m.time.hour * 60 + m.time.minute) * 60 + m.time.second) * 10 ^ 6 +
          m.time.fractionNumber * 1000 : Nat) := by
    unfold time_duration
    rw [if_neg (by omega)]
    simp [Int.natAbs_mul]
  have hlength := m.time.length
  -- the fraction counts as milliseconds, whatever number of digits it has
  have hscale : m.time.fractionNumber * 1000 =
      m.time.fractionNumber * 10 ^ (6 - m.time.fraction.length) ↔
        m.time.fraction.length = 3 ∨ m.time.fractionNumber = 0 := by
    have hpow : 1000 = 10 ^ (6 - m.time.fraction.length) ↔ m.time.fraction.length = 3 := by
      rw [show 1000 = 10 ^ 3 from rfl, Nat.pow_right_inj (by decide)]
      omega
    rw [mul_eq_mul_left_iff, hpow]
  unfold GetTimestamp date
  rw [hyear, hyear, hmonth, hday, hhour, hmin, hsec, hmsec, htz, hshort _ (by omega),
    hshort _ (by omega), hshort _ (by omega), if_pos hdate, hduration]
  have hne : ((m.time.year : Nat) : Int) ≠ 0 := by
    have := m.time.year_ge
    omega
  simp only [Option.bind_eq_bind, Option.bind_some, if_neg hne]
  rw [← hscale, Rfc5424Time.instant]
  -- the offset is taken off on both sides
  cases hzone : m.time.zone with
  | utc =>
    show (D.duration_from_string "0:00".toList).bind _ = _ ↔ _
    rw [D.zero]
    simp only [Option.bind_some, Zone.ahead]
    rw [if_neg (by decide), Option.some.injEq]
    omega
  | offset minus hours minutes =>
    have hvalid := m.time.zoneValid
    rw [hzone] at hvalid
    show (D.duration_from_string (padded 2 hours ++ ':' :: padded 2 minutes)).bind _ = _ ↔ _
    rw [D.hhmm hours hvalid.1 minutes hvalid.2]
    simp only [Option.bind_some, Zone.ahead, Option.some.injEq]
    cases minus with
    | true =>
      rw [if_pos rfl, if_pos rfl, if_pos rfl]
      omega
    | false =>
      rw [if_neg Bool.false_ne_true, if_neg Bool.false_ne_true, if_neg (by decide)]
      omega

/-- 2016-12-06T11:38:19.5Z -/
def halfSecond : Rfc5424Message where
  msglen := none
  facsev := 13
  version := 1
  time :=
    { year := 2016, month := 12, day := 6, hour := 11, minute := 38, second := 19,
      fraction := ['5'], zone := .utc, year_ge := by decide, date := by decide,
      time := by decide, digits := List.all_eq_true.mp rfl, length := by decide,
      zoneValid := trivial }
  rest := "host prog: text".toList
  msglen_lt := by simp
  facsev_lt := by decide
  version_lt := by decide

/-- Five tenths of a second are taken for five milliseconds. -/
theorem not_timestamp_exact : ¬ ∀ m : Rfc5424Message,
    GetTimestamp hoursMinutesDurations newYear2020 (fun _ => 0) (parse_syslog m.text .empty).1 =
      some m.time.instant := by
  intro h
  exact absurd (h halfSecond) (by decide +kernel)

end TfAnalytics.Collector
