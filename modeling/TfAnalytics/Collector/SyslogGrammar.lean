import TfAnalytics.Lib.OrderedMap
import TfAnalytics.Lib.Phrase
import TfAnalytics.Collector.StructuredSyslog
import Mathlib.Data.List.TakeWhile
import Mathlib.Data.String.Basic

/-!
# Collector — the grammar of syslog messages

`SyslogParser::parse_syslog` (syslog_collector.cc) reads a message with a grammar of Spirit,
whose actions put the fields into a map. A field keeps the value it gets first, also when the
alternative that read it does not match in the end.

* `int_digits`: a decimal number is read to its end;
* `parse_syslog_reads`: what was in the map stays, and what is added are fields of the grammar.
-/

namespace TfAnalytics.Collector

open TfAnalytics.Lib

-- ---------------------------------------------------------------------------
-- Fields
-- ---------------------------------------------------------------------------

/-- `SyslogParser::Holder`. -/
inductive Holder
  | int (i_val : Int)
  | str (s_val : Bytes)
  deriving DecidableEq

/-- `SyslogParser::syslog_m_t`. -/
abbrev SyslogMap := OrderedMap String Holder

/-- `GetMapVals`; the text of a number is empty. -/
def GetMapVals (v : SyslogMap) (key : String) (default : Bytes) : Bytes :=
  match v.find? key with
  | none => default
  | some (.str s_val) => s_val
  | some (.int _) => []

/-- `GetMapVal`. The number of a text is never set: `uninit` is what the memory holds. -/
def GetMapVal (uninit : String → Int) (v : SyslogMap) (key : String) (default : Int) : Int :=
  match v.find? key with
  | none => default
  | some (.int i_val) => i_val
  | some (.str _) => uninit key

-- ---------------------------------------------------------------------------
-- Tokens
-- ---------------------------------------------------------------------------

/-- `isspace`. -/
def isSpace (c : Char) : Bool := c = ' ' || ('\t' ≤ c && c ≤ '\r')

/-- The skipper. -/
def skip (text : Bytes) : Bytes := text.dropWhile isSpace

/-- The sign, whether it is a minus, and the digits after it. -/
def splitSign : Bytes → Bool × Bytes
  | '-' :: rest => (true, rest)
  | '+' :: rest => (false, rest)
  | text => (false, text)

/-- The number that the digits at the front have, and what is behind them. -/
def splitNumber (text : Bytes) : Option (Int × Bytes) :=
  let signed := splitSign text
  let digits := signed.2.takeWhile Char.isDigit
  if digits = [] then none
  else
    let n : Int := Nat.ofDigitChars 10 digits 0
    some (if signed.1 then -n else n, signed.2.dropWhile Char.isDigit)

/-- `int_`: a number that is beyond an `int` is none. -/
def int_ (text : Bytes) : Option (Int × Bytes) :=
  (splitNumber (skip text)).filter fun n => -2 ^ 31 ≤ n.1 ∧ n.1 < 2 ^ 31

/-- `lit`. -/
def lit (s : Bytes) (text : Bytes) : Option (Unit × Bytes) :=
  if s <+: skip text then some ((), (skip text).drop s.length) else none

/-- `lexeme[ +char_ ]` over the characters that `p` allows. -/
def word (p : Char → Bool) (text : Bytes) : Option (Bytes × Bytes) :=
  if (skip text).takeWhile p = [] then none
  else some ((skip text).takeWhile p, (skip text).dropWhile p)

/-- `word4`: a blank follows. -/
def wordBlank (p : Char → Bool) (text : Bytes) : Option (Bytes × Bytes) := do
  let read ← word p text
  match read.2 with
  | ' ' :: rest => some (read.1, rest)
  | _ => none

/-- `body`: all that is left. -/
def bodyText (text : Bytes) : Option (Bytes × Bytes) := some (skip text, [])

/-- The symbols of `months`. -/
def monthNames : List (String × Int) :=
  [("Jan", 1), ("Feb", 2), ("Mar", 3), ("Apr", 4), ("May", 5), ("Jun", 6), ("Jul", 7), ("Aug", 8),
    ("Sep", 9), ("Oct", 10), ("Nov", 11), ("Dec", 12)]

def months (text : Bytes) : Option (Int × Bytes) :=
  monthNames.findSome? fun month =>
    if month.1.toList <+: skip text then
      some (month.2, (skip text).drop month.1.toList.length)
    else none

-- ---------------------------------------------------------------------------
-- The grammar
-- ---------------------------------------------------------------------------

abbrev SyslogPhrase := Phrase SyslogMap Char

/-- `p [insert(phx::ref(v), ...)]` with a number. -/
def intField (key : String) (read : Bytes → Option (Int × Bytes)) : SyslogPhrase :=
  Phrase.token read fun v n => v.insert key (.int n)

/-- The same with a text. -/
def textField (key : String) (read : Bytes → Option (Bytes × Bytes)) : SyslogPhrase :=
  Phrase.token read fun v s => v.insert key (.str s)

def litPhrase (s : String) : SyslogPhrase := Phrase.token (lit s.toList) fun v _ => v

/-- `prog`, with no `pid`. -/
def progField (p : Char → Bool) : SyslogPhrase :=
  Phrase.token (word p) fun v s => (v.insert "prog" (.str s)).insert "pid" (.int (-1))

/-- Facility and severity, with the length of the message before them or not. -/
def priority : SyslogPhrase :=
  Phrase.alt
    (Phrase.seq [intField "msglen" int_, litPhrase "<", intField "facsev" int_, litPhrase ">"])
    (Phrase.seq [litPhrase "<", intField "facsev" int_, litPhrase ">"])

/-- The date of BSD syslog and the hostname. -/
def bsdHeader : SyslogPhrase :=
  Phrase.seq [intField "month" months, intField "day" int_, intField "hour" int_, litPhrase ":",
    intField "min" int_, litPhrase ":", intField "sec" int_,
    Phrase.opt (textField "hostname" (wordBlank fun c => c ≠ '[' && c ≠ ' ' && c ≠ ':'))]

/-- The version, the date of RFC 5424 and the hostname. -/
def isoHeader : SyslogPhrase :=
  Phrase.seq [intField "version" int_, intField "year" int_, litPhrase "-", intField "month" int_,
    litPhrase "-", intField "day" int_, litPhrase "T", intField "hour" int_, litPhrase ":",
    intField "min" int_, litPhrase ":", intField "sec" int_, litPhrase ".", intField "msec" int_,
    Phrase.alt (litPhrase "Z") (textField "tz" (word fun c => c ≠ ' ')),
    textField "hostname" (word fun c => c ≠ ' ')]

/-- `prog[pid]:`, `prog:` or `prog -`. -/
def progTag : SyslogPhrase :=
  Phrase.alt
    (Phrase.seq [textField "prog" (word fun c => c ≠ '[' && c ≠ ' ' && c ≠ ':'), litPhrase "[",
      intField "pid" int_, litPhrase "]:"])
    (Phrase.alt (Phrase.seq [progField fun c => c ≠ ':' && c ≠ ' ', litPhrase ":"])
      (Phrase.seq [progField fun c => c ≠ ':' && c ≠ ' ', litPhrase "-"]))

/-- The rest of the message, with a tag before it or not. -/
def content : SyslogPhrase :=
  Phrase.alt (Phrase.seq [progTag, textField "body" bodyText])
    (Phrase.token bodyText fun v s =>
      ((v.insert "prog" (.str [])).insert "pid" (.int (-1))).insert "body" (.str s))

def syslogMessage : SyslogPhrase :=
  Phrase.seq [priority, Phrase.alt bsdHeader isoHeader, content]

/-- `parse_syslog`: the fields, and whether the message was read to its end. -/
def parse_syslog (msg : Bytes) (v : SyslogMap) : SyslogMap × Bool :=
  match syslogMessage v msg with
  | (v', some rest) => (v', skip rest = [])
  | (v', none) => (v', false)

-- ---------------------------------------------------------------------------
-- Reading
-- ---------------------------------------------------------------------------

theorem not_isSpace_of_isDigit {c : Char} (h : c.isDigit = true) : isSpace c = false := by
  simp only [Char.isDigit, Bool.and_eq_true, decide_eq_true_eq] at h
  simp only [isSpace, Bool.or_eq_false_iff, decide_eq_false_iff_not, Bool.and_eq_false_iff]
  refine ⟨?_, .inr ?_⟩
  · rintro rfl
    exact absurd h.1 (by decide)
  · intro hle
    have hr : c.toNat ≤ '\r'.toNat := hle
    have h0 : '0'.toNat ≤ c.toNat := h.1
    have hlt : '\r'.toNat < '0'.toNat := by decide
    omega

theorem skip_cons {c : Char} (h : isSpace c = false) (rest : Bytes) :
    skip (c :: rest) = c :: rest := by
  rw [skip, List.dropWhile_cons, h]
  rfl

theorem skip_blank (text : Bytes) : skip (' ' :: text) = skip text := rfl

theorem splitSign_digit {d : Char} (hd : d.isDigit = true) (rest : Bytes) :
    splitSign (d :: rest) = (false, d :: rest) := by
  unfold splitSign
  split
  · rename_i heq
    rw [(List.cons.inj heq).1] at hd
    exact absurd hd (by decide)
  · rename_i heq
    rw [(List.cons.inj heq).1] at hd
    exact absurd hd (by decide)
  · rfl

/-- A decimal number is read up to the first character that is not a digit. -/
theorem int_digits {digits : Bytes} (hdigits : ∀ c ∈ digits, c.isDigit = true)
    (hne : digits ≠ []) (hlt : Nat.ofDigitChars 10 digits 0 < 2 ^ 31) {c : Char}
    (hc : c.isDigit = false) (rest : Bytes) :
    int_ (digits ++ c :: rest) =
      some (((Nat.ofDigitChars 10 digits 0 : Nat) : Int), c :: rest) := by
  obtain ⟨d, ds, rfl⟩ := List.exists_cons_of_ne_nil hne
  have hd := hdigits d List.mem_cons_self
  have hsign : splitSign (d :: ds ++ c :: rest) = (false, d :: ds ++ c :: rest) :=
    splitSign_digit hd _
  have htake : (d :: ds ++ c :: rest).takeWhile Char.isDigit = d :: ds := by
    rw [List.takeWhile_append_of_pos hdigits, List.takeWhile_cons, hc]
    simp
  have hdrop : (d :: ds ++ c :: rest).dropWhile Char.isDigit = c :: rest := by
    rw [List.dropWhile_append_of_pos hdigits, List.dropWhile_cons, hc]
    simp
  have hskip : skip (d :: ds ++ c :: rest) = d :: ds ++ c :: rest :=
    skip_cons (not_isSpace_of_isDigit hd) _
  have hnumber : splitNumber (d :: ds ++ c :: rest) =
      some (((Nat.ofDigitChars 10 (d :: ds) 0 : Nat) : Int), c :: rest) := by
    simp only [splitNumber, hsign, htake, hdrop]
    simp
  rw [int_, hskip, hnumber, Option.filter_some, if_pos]
  simp only [decide_eq_true_eq]
  omega

/-- Blanks before a number are skipped. -/
theorem int_blank (text : Bytes) : int_ (' ' :: text) = int_ text := by
  rw [int_, skip_blank, int_]

/-- A word is read up to the first character that is none of its own. -/
theorem word_append {p : Char → Bool} {d c : Char} {s : Bytes} (hd : isSpace d = false)
    (hs : ∀ x ∈ d :: s, p x = true) (hc : p c = false) (rest : Bytes) :
    word p (d :: s ++ c :: rest) = some (d :: s, c :: rest) := by
  have hskip : skip (d :: s ++ c :: rest) = d :: s ++ c :: rest := skip_cons hd _
  have htake : (d :: s ++ c :: rest).takeWhile p = d :: s := by
    rw [List.takeWhile_append_of_pos hs, List.takeWhile_cons, hc]
    simp
  have hdrop : (d :: s ++ c :: rest).dropWhile p = c :: rest := by
    rw [List.dropWhile_append_of_pos hs, List.dropWhile_cons, hc]
    simp
  rw [word, hskip, htake, hdrop]
  simp

theorem lit_cons {c : Char} (hc : isSpace c = false) (rest : Bytes) :
    lit [c] (c :: rest) = some ((), rest) := by
  simp [lit, skip_cons hc]

-- ---------------------------------------------------------------------------
-- What the map can hold
-- ---------------------------------------------------------------------------

def intKeys : List String :=
  ["msglen", "facsev", "month", "day", "hour", "min", "sec", "version", "year", "msec", "pid"]

/-- A field that the grammar reads: an `int` or a text, under the keys of its kind; a zone is
not empty. -/
def FieldOk (key : String) : Holder → Prop
  | .int n => key ∈ intKeys ∧ -2 ^ 31 ≤ n ∧ n < 2 ^ 31
  | .str s => key ∈ ["hostname", "tz", "prog", "body"] ∧ (key = "tz" → s ≠ [])

/-- From one map to the other only fields were added. -/
structure Reads (v v' : SyslogMap) : Prop where
  extends_ : ∀ key x, v.find? key = some x → v'.find? key = some x
  fields : ∀ key x, v'.find? key = some x → v.find? key = some x ∨ FieldOk key x

/-- The field is as before. -/
def SameAt (key : String) (v v' : SyslogMap) : Prop := v'.find? key = v.find? key

theorem Reads.refl (v : SyslogMap) : Reads v v := ⟨fun _ _ h => h, fun _ _ h => .inl h⟩

theorem Reads.trans (v₁ v₂ v₃ : SyslogMap) (h : Reads v₁ v₂) (h' : Reads v₂ v₃) : Reads v₁ v₃ where
  extends_ key x hx := h'.extends_ key x (h.extends_ key x hx)
  fields key x hx := (h'.fields key x hx).elim (h.fields key x) .inr

theorem Reads.insert {key : String} {x : Holder} (hx : FieldOk key x) (v : SyslogMap) :
    Reads v (v.insert key x) where
  extends_ key' y hy := by
    rw [OrderedMap.find?_insert]
    split
    · rename_i hkey
      rw [← hkey, hy]
      rfl
    · exact hy
  fields key' y hy := by
    rw [OrderedMap.find?_insert] at hy
    split at hy
    · rename_i hkey
      subst hkey
      cases hfind : v.find? key' with
      | none =>
        rw [hfind] at hy
        exact .inr (Option.some.inj hy ▸ hx)
      | some z =>
        rw [hfind] at hy
        exact .inl hy
    · exact .inl hy

theorem SameAt.trans {key : String} (v₁ v₂ v₃ : SyslogMap) (h : SameAt key v₁ v₂)
    (h' : SameAt key v₂ v₃) : SameAt key v₁ v₃ := Eq.trans h' h

theorem SameAt.insert {key key' : String} (h : key ≠ key') (v : SyslogMap) (x : Holder) :
    SameAt key v (v.insert key' x) := by
  rw [SameAt, OrderedMap.find?_insert, if_neg h]

theorem int_range {text rest : Bytes} {n : Int} (h : int_ text = some (n, rest)) :
    -2 ^ 31 ≤ n ∧ n < 2 ^ 31 := by
  have := (Option.filter_eq_some_iff.mp h).2
  simpa using this

theorem word_ne_nil {p : Char → Bool} {text s rest : Bytes} (h : word p text = some (s, rest)) :
    s ≠ [] := by
  unfold word at h
  split at h
  · cases h
  · rename_i hne
    simp only [Option.some.injEq, Prod.mk.injEq] at h
    exact h.1 ▸ hne

theorem months_range {text rest : Bytes} {n : Int} (h : months text = some (n, rest)) :
    -2 ^ 31 ≤ n ∧ n < 2 ^ 31 := by
  obtain ⟨month, hmonth, hread⟩ := List.exists_of_findSome?_eq_some h
  have hall : ∀ month ∈ monthNames, -2 ^ 31 ≤ month.2 ∧ month.2 < 2 ^ 31 := by decide
  split at hread
  · simp only [Option.some.injEq, Prod.mk.injEq] at hread
    exact hread.1 ▸ hall month hmonth
  · cases hread

/-- A relation that every field under one of the keys keeps. -/
structure KeepsFields (R : SyslogMap → SyslogMap → Prop) (keys : List String) : Prop where
  refl : ∀ v, R v v
  trans : ∀ v₁ v₂ v₃, R v₁ v₂ → R v₂ v₃ → R v₁ v₃
  insert : ∀ key ∈ keys, ∀ x, FieldOk key x → ∀ v, R v (v.insert key x)

theorem keepsFields_reads (keys : List String) : KeepsFields Reads keys :=
  ⟨Reads.refl, Reads.trans, fun _ _ _ hx => Reads.insert hx⟩

theorem keepsFields_sameAt {key : String} {keys : List String} (h : key ∉ keys) :
    KeepsFields (SameAt key) keys where
  refl _ := rfl
  trans := SameAt.trans
  insert key' hkey' x _ v := SameAt.insert (fun heq : key = key' => h (heq ▸ hkey')) v x

section Always

variable {R : SyslogMap → SyslogMap → Prop} {keys : List String} (hR : KeepsFields R keys)

include hR

theorem always_int_ {key : String} (hkey : key ∈ keys) (hint : key ∈ intKeys) :
    Phrase.Always R (intField key int_) :=
  .token hR.refl fun v _ n _ h => hR.insert key hkey (.int n) ⟨hint, int_range h⟩ v

theorem always_months (hkey : "month" ∈ keys) : Phrase.Always R (intField "month" months) :=
  .token hR.refl fun v _ n _ h =>
    hR.insert "month" hkey (.int n) ⟨by decide, months_range h⟩ v

theorem always_word {key : String} (hkey : key ∈ keys)
    (htext : key ∈ ["hostname", "tz", "prog", "body"]) (p : Char → Bool) :
    Phrase.Always R (textField key (word p)) :=
  .token hR.refl fun v _ s _ h => hR.insert key hkey (.str s) ⟨htext, fun _ => word_ne_nil h⟩ v

theorem always_textField {key : String} (hkey : key ∈ keys)
    (htext : key ∈ ["hostname", "prog", "body"]) (read : Bytes → Option (Bytes × Bytes)) :
    Phrase.Always R (textField key read) := by
  have hsub : ∀ key ∈ ["hostname", "prog", "body"],
      key ∈ ["hostname", "tz", "prog", "body"] ∧ key ≠ "tz" := by decide
  exact .token hR.refl fun v _ s _ _ => hR.insert key hkey (.str s)
    ⟨(hsub key htext).1, fun htz => absurd htz (hsub key htext).2⟩ v

theorem always_litPhrase (s : String) : Phrase.Always R (litPhrase s) :=
  .token hR.refl fun v _ _ _ _ => hR.refl v

theorem always_progField (hprog : "prog" ∈ keys) (hpid : "pid" ∈ keys) (p : Char → Bool) :
    Phrase.Always R (progField p) :=
  .token hR.refl fun v _ s _ _ => hR.trans _ _ _
    (hR.insert "prog" hprog (.str s) ⟨by decide, fun h => absurd h (by decide)⟩ v)
    (hR.insert "pid" hpid (.int (-1)) ⟨by decide, by decide⟩ _)

theorem always_priority (h : ∀ key ∈ ["msglen", "facsev"], key ∈ keys) :
    Phrase.Always R priority := by
  have hmsglen := always_int_ hR (h "msglen" (by decide)) (by decide)
  have hfacsev := always_int_ hR (h "facsev" (by decide)) (by decide)
  refine .alt hR.trans (.seq hR.refl hR.trans ?_) (.seq hR.refl hR.trans ?_)
  · simp [hmsglen, hfacsev, always_litPhrase hR]
  · simp [hfacsev, always_litPhrase hR]

theorem always_bsdHeader
    (h : ∀ key ∈ ["month", "day", "hour", "min", "sec", "hostname"], key ∈ keys) :
    Phrase.Always R bsdHeader := by
  have hmonth := always_months hR (h "month" (by decide))
  have hday := always_int_ hR (h "day" (by decide)) (by decide)
  have hhour := always_int_ hR (h "hour" (by decide)) (by decide)
  have hmin := always_int_ hR (h "min" (by decide)) (by decide)
  have hsec := always_int_ hR (h "sec" (by decide)) (by decide)
  have hhost := (always_textField hR (h "hostname" (by decide)) (by decide)
    (wordBlank fun c => c ≠ '[' && c ≠ ' ' && c ≠ ':')).opt
  refine .seq hR.refl hR.trans ?_
  simp only [List.forall_mem_cons, List.not_mem_nil, false_implies, implies_true, and_true]
  exact ⟨hmonth, hday, hhour, always_litPhrase hR _, hmin, always_litPhrase hR _, hsec, hhost⟩

theorem always_isoHeader (h : ∀ key ∈ ["version", "year", "month", "day", "hour", "min", "sec",
    "msec", "tz", "hostname"], key ∈ keys) : Phrase.Always R isoHeader := by
  have hint : ∀ key ∈ ["version", "year", "month", "day", "hour", "min", "sec", "msec"],
      Phrase.Always R (intField key int_) := by
    have hsub : ∀ key ∈ ["version", "year", "month", "day", "hour", "min", "sec", "msec"],
        key ∈ ["version", "year", "month", "day", "hour", "min", "sec", "msec", "tz", "hostname"] ∧
          key ∈ intKeys := by decide
    exact fun key hkey => always_int_ hR (h key (hsub key hkey).1) (hsub key hkey).2
  have hzone := Phrase.Always.alt hR.trans (always_litPhrase hR "Z")
    (always_word hR (h "tz" (by decide)) (by decide) fun c => c ≠ ' ')
  have hhost := always_word hR (h "hostname" (by decide)) (by decide) fun c => c ≠ ' '
  refine .seq hR.refl hR.trans ?_
  simp only [List.forall_mem_cons, List.not_mem_nil, false_implies, implies_true, and_true]
  exact ⟨hint _ (by decide), hint _ (by decide), always_litPhrase hR _, hint _ (by decide),
    always_litPhrase hR _, hint _ (by decide), always_litPhrase hR _, hint _ (by decide),
    always_litPhrase hR _, hint _ (by decide), always_litPhrase hR _, hint _ (by decide),
    always_litPhrase hR _, hint _ (by decide), hzone, hhost⟩

theorem always_progTag (hprog : "prog" ∈ keys) (hpid : "pid" ∈ keys) : Phrase.Always R progTag := by
  have hword := always_word hR hprog (by decide) fun c => c ≠ '[' && c ≠ ' ' && c ≠ ':'
  have hint := always_int_ hR hpid (by decide)
  have hfield := always_progField hR hprog hpid fun c => c ≠ ':' && c ≠ ' '
  refine .alt hR.trans (.seq hR.refl hR.trans ?_) (.alt hR.trans (.seq hR.refl hR.trans ?_)
    (.seq hR.refl hR.trans ?_))
  · simp only [List.forall_mem_cons, List.not_mem_nil, false_implies, implies_true, and_true]
    exact ⟨hword, always_litPhrase hR _, hint, always_litPhrase hR _⟩
  · simp only [List.forall_mem_cons, List.not_mem_nil, false_implies, implies_true, and_true]
    exact ⟨hfield, always_litPhrase hR _⟩
  · simp only [List.forall_mem_cons, List.not_mem_nil, false_implies, implies_true, and_true]
    exact ⟨hfield, always_litPhrase hR _⟩

theorem always_content (h : ∀ key ∈ ["prog", "pid", "body"], key ∈ keys) :
    Phrase.Always R content := by
  have hprog := h "prog" (by decide)
  have hpid := h "pid" (by decide)
  have hbody := h "body" (by decide)
  have htag := always_progTag hR hprog hpid
  refine .alt hR.trans (.seq hR.refl hR.trans ?_) (.token hR.refl fun v _ s _ _ => ?_)
  · simp only [List.forall_mem_cons, List.not_mem_nil, false_implies, implies_true, and_true]
    exact ⟨htag, always_textField hR hbody (by decide) bodyText⟩
  · have hkeys : ∀ key ∈ ["prog", "body"],
        key ∈ ["hostname", "tz", "prog", "body"] ∧ key ≠ "tz" := by decide
    have hstr : ∀ key ∈ ["prog", "body"], ∀ s, FieldOk key (.str s) :=
      fun key hkey _ => ⟨(hkeys key hkey).1, fun htz => absurd htz (hkeys key hkey).2⟩
    exact hR.trans _ _ _ (hR.trans _ _ _ (hR.insert "prog" hprog _ (hstr _ (by decide) _) v)
      (hR.insert "pid" hpid (.int (-1)) ⟨by decide, by decide⟩ _))
      (hR.insert "body" hbody _ (hstr _ (by decide) s) _)

end Always

theorem fst_parse_syslog (msg : Bytes) (v : SyslogMap) :
    (parse_syslog msg v).1 = (syslogMessage v msg).1 := by
  unfold parse_syslog
  rcases syslogMessage v msg with ⟨v', _ | rest⟩ <;> rfl

/-- The message adds fields that the grammar reads, and nothing else. -/
theorem parse_syslog_reads (msg : Bytes) (v : SyslogMap) : Reads v (parse_syslog msg v).1 := by
  have hR := keepsFields_reads (intKeys ++ ["hostname", "tz", "prog", "body"])
  rw [fst_parse_syslog]
  refine Phrase.Always.seq hR.refl hR.trans ?_ v msg
  simp only [List.forall_mem_cons, List.not_mem_nil, false_implies, implies_true, and_true]
  exact ⟨always_priority hR (by decide),
    .alt hR.trans (always_bsdHeader hR (by decide)) (always_isoHeader hR (by decide)),
    always_content hR (by decide)⟩

end TfAnalytics.Collector
