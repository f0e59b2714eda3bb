import TfAnalytics.Lib.Delimited
import TfAnalytics.Collector.SyslogGrammar

/-!
# Collector — the structured part of a syslog message

`ParseStructuredPart` (structured_syslog_server.cc) reads `key="value"` pairs. It skips one
character behind each `=` and one behind each closing quote without looking at it, and adds the
pairs to the fields of the message, and to the text of a message that is forwarded.

* `parseLoop_scan`: what a run does, by the shape of the text;
* `scan_render`: the shape of rendered pairs;
* `parseStructuredPart_spec`: rendered pairs are read back, and every text is read to an end.
-/

namespace TfAnalytics.Collector

open TfAnalytics.Lib

-- ---------------------------------------------------------------------------
-- std::string
-- ---------------------------------------------------------------------------

/-- `find`: from a position beyond the end nothing is found. -/
def findFrom (c : Char) (s : Bytes) (pos : Nat) : Option Nat :=
  ((s.drop pos).idxOf? c).map (pos + ·)

/-- `substr`: it throws when the position is beyond the end. -/
def substr (s : Bytes) (pos n : Nat) : Option Bytes :=
  if pos ≤ s.length then some ((s.drop pos).take n) else none

/-- `atol`, where a number beyond a `long` is its nearest one. -/
def atol (text : Bytes) : Int :=
  match splitNumber (skip text) with
  | none => 0
  | some (n, _) => max (-2 ^ 63) (min n (2 ^ 63 - 1))

-- ---------------------------------------------------------------------------
-- ParseStructuredPart
-- ---------------------------------------------------------------------------

/-- `DecorateMsg`: the message with the pair before the next `]`, and the position. -/
def DecorateMsg (msg : Option Bytes) (key val : Bytes) (prev_pos : Nat) : Option Bytes × Nat :=
  match msg with
  | none => (none, 0)
  | some msg =>
    match findFrom ']' msg prev_pos with
    | none => (some msg, 0)
    | some pos =>
      (some (msg.take pos ++ (' ' :: key ++ '=' :: '"' :: val ++ ['"']) ++ msg.drop pos), pos)

/-- The field of a pair. -/
def pairHolder (int_fields : List String) (key val : Bytes) : Holder :=
  if String.ofList key ∈ int_fields then .int (atol val) else .str val

/-- The fields, the message and whether the text was read to its end. -/
structure PartResult where
  v : SyslogMap
  fwd_msg : Option Bytes
  ret : Bool

variable (int_fields : List String)

/-- The `while` loop; `none` where `substr` throws or the fuel is used up. -/
def parseLoop (structured_part : Bytes) :
    Nat → Nat → SyslogMap → Option Bytes → Nat → Option PartResult
  | 0, _, _, _, _ => none
  | fuel + 1, start, v, fwd_msg, prev_pos =>
    match findFrom '=' structured_part start with
    | none => some ⟨v, fwd_msg, true⟩
    | some stop => do
      let key ← substr structured_part start (stop - start)
      let start := stop + 2
      match findFrom '"' structured_part start with
      | none => some ⟨v, fwd_msg, false⟩
      | some stop => do
        let val ← substr structured_part start (stop - start)
        let start := stop + 2
        let v := v.insert (String.ofList key) (pairHolder int_fields key val)
        let (fwd_msg, prev_pos) := DecorateMsg fwd_msg key val prev_pos
        parseLoop structured_part fuel start v fwd_msg prev_pos

def ParseStructuredPart (structured_part : Bytes) (v : SyslogMap) (fwd_msg : Option Bytes) :
    Option PartResult :=
  parseLoop int_fields structured_part (structured_part.length + 1) 0 v fwd_msg 0

-- ---------------------------------------------------------------------------
-- The shape of a text
-- ---------------------------------------------------------------------------

/-- The pairs of a text, and whether all of them are closed: behind `=` and behind the closing
quote any character is skipped. -/
inductive Scan : Bytes → List (Bytes × Bytes) → Bool → Prop
  | done {text : Bytes} (h : '=' ∉ text) : Scan text [] true
  | unclosed {key rest : Bytes} (hkey : '=' ∉ key) (hrest : '"' ∉ rest.drop 1) :
    Scan (key ++ '=' :: rest) [] false
  | pair {key val rest : Bytes} {opening : Char} {pairs : List (Bytes × Bytes)} {ret : Bool}
    (hkey : '=' ∉ key) (hval : '"' ∉ val) (h : Scan (rest.drop 1) pairs ret) :
    Scan (key ++ '=' :: opening :: (val ++ '"' :: rest)) ((key, val) :: pairs) ret

/-- Some `key=`, the first or one behind closed pairs, is not followed by a closing quote. -/
inductive Unclosed : Bytes → Prop
  | here {key rest : Bytes} (hkey : '=' ∉ key) (hrest : '"' ∉ rest.drop 1) :
    Unclosed (key ++ '=' :: rest)
  | behind {key val rest : Bytes} {opening skipped : Char} (hkey : '=' ∉ key) (hval : '"' ∉ val)
    (h : Unclosed rest) : Unclosed (key ++ '=' :: opening :: (val ++ '"' :: skipped :: rest))

/-- The pairs as text, separated by single spaces. -/
def renderPairs (pairs : List (Bytes × Bytes)) : Bytes :=
  [' '].intercalate (pairs.map fun p => p.1 ++ '=' :: '"' :: (p.2 ++ ['"']))

/-- The fields with the pairs added. -/
def addPairs (v : SyslogMap) (pairs : List (Bytes × Bytes)) : SyslogMap :=
  pairs.foldl (fun v p => v.insert (String.ofList p.1) (pairHolder int_fields p.1 p.2)) v

/-- The message with the pairs spliced in, one after the other. -/
def decoratePairs (fwd_msg : Option Bytes) (prev_pos : Nat) (pairs : List (Bytes × Bytes)) :
    Option Bytes × Nat :=
  pairs.foldl (fun s p => DecorateMsg s.1 p.1 p.2 s.2) (fwd_msg, prev_pos)

-- ---------------------------------------------------------------------------
-- A run
-- ---------------------------------------------------------------------------

variable {int_fields}

theorem findFrom_eq_none {c : Char} {s : Bytes} {pos : Nat} (h : c ∉ s.drop pos) :
    findFrom c s pos = none := by
  rw [findFrom, List.idxOf?_eq_none_iff.mpr h, Option.map_none]

theorem idxOf?_append_cons {c : Char} {a : Bytes} (h : c ∉ a) (b : Bytes) :
    (a ++ c :: b).idxOf? c = some a.length := by
  induction a with
  | nil => simp [List.idxOf?_cons]
  | cons d a ih =>
    rw [List.mem_cons, not_or] at h
    rw [List.cons_append, List.idxOf?_cons, ih h.2, if_neg (by simpa using Ne.symm h.1)]
    rfl

theorem findFrom_eq_some {c : Char} {s a b : Bytes} {pos : Nat} (hs : s.drop pos = a ++ c :: b)
    (ha : c ∉ a) : findFrom c s pos = some (pos + a.length) := by
  rw [findFrom, hs, idxOf?_append_cons ha, Option.map_some]

theorem substr_eq {s a b : Bytes} {pos : Nat} (hs : s.drop pos = a ++ b) (hpos : pos ≤ s.length)
    (n : Nat) (hn : n = a.length) : substr s pos n = some a := by
  rw [substr, if_pos hpos, hs, hn, List.take_left]

theorem drop_add_of_eq {s a b : Bytes} {pos : Nat} (hs : s.drop pos = a ++ b) (n : Nat)
    (hn : n = pos + a.length) : s.drop n = b := by
  rw [hn, ← List.drop_drop, hs, List.drop_left]

/-- A run reads the pairs of the text and adds each to the fields and to the message. -/
theorem parseLoop_scan {text : Bytes} {pairs : List (Bytes × Bytes)} {ret : Bool}
    (h : Scan text pairs ret) {s : Bytes} {start fuel : Nat} (hs : s.drop start = text)
    (hfuel : text.length < fuel) (v : SyslogMap) (fwd_msg : Option Bytes) (prev_pos : Nat) :
    parseLoop int_fields s fuel start v fwd_msg prev_pos =
      some ⟨addPairs int_fields v pairs, (decoratePairs fwd_msg prev_pos pairs).1, ret⟩ := by
  induction h generalizing start fuel v fwd_msg prev_pos with
  | done h =>
    obtain ⟨fuel, rfl⟩ : ∃ n, fuel = n + 1 := ⟨fuel - 1, by omega⟩
    rw [parseLoop, findFrom_eq_none (hs.symm ▸ h)]
    rfl
  | @unclosed key rest hkey hrest =>
    obtain ⟨fuel, rfl⟩ : ∃ n, fuel = n + 1 := ⟨fuel - 1, by omega⟩
    have hpos : start ≤ s.length := by
      by_contra hlt
      rw [List.drop_eq_nil_of_le (by omega)] at hs
      simp at hs
    have hrest' : s.drop (start + key.length + 2) = rest.drop 1 := by
      have hdrop : s.drop (start + key.length) = '=' :: rest := drop_add_of_eq hs _ rfl
      rw [← List.drop_drop, hdrop]
      rfl
    -- the name is found and its quote is not closed: the loop ends there
    rw [parseLoop, findFrom_eq_some hs hkey]
    simp only [substr_eq hs hpos (start + key.length - start) (by omega), Option.bind_eq_bind,
      Option.bind_some, findFrom_eq_none (hrest'.symm ▸ hrest)]
    rfl
  | @pair key val rest opening pairs ret hkey hval h ih =>
    obtain ⟨fuel, rfl⟩ : ∃ n, fuel = n + 1 := ⟨fuel - 1, by omega⟩
    have hpos : start ≤ s.length := by
      by_contra hlt
      rw [List.drop_eq_nil_of_le (by omega)] at hs
      simp at hs
    -- the value begins behind the quote
    have hval' : s.drop (start + key.length + 2) = val ++ '"' :: rest := by
      have hdrop : s.drop (start + key.length) = '=' :: opening :: (val ++ '"' :: rest) :=
        drop_add_of_eq hs _ rfl
      rw [← List.drop_drop, hdrop]
      rfl
    have hpos' : start + key.length + 2 ≤ s.length := by
      by_contra hlt
      rw [List.drop_eq_nil_of_le (by omega)] at hval'
      simp at hval'
    -- and the loop goes on behind the one that closes it
    have hrest : s.drop (start + key.length + 2 + val.length + 2) = rest.drop 1 := by
      have hdrop : s.drop (start + key.length + 2 + val.length) = '"' :: rest :=
        drop_add_of_eq hval' _ rfl
      rw [← List.drop_drop, hdrop]
      rfl
    have hlt : (rest.drop 1).length < fuel := by
      simp only [List.length_append, List.length_cons, List.length_drop] at hfuel ⊢
      omega
    rw [parseLoop, findFrom_eq_some hs hkey]
    simp only [substr_eq hs hpos (start + key.length - start) (by omega), Option.bind_eq_bind,
      Option.bind_some, findFrom_eq_some hval' hval,
      substr_eq hval' hpos' (start + key.length + 2 + val.length - (start + key.length + 2))
        (by omega)]
    rw [ih hrest hlt]
    rfl

/-- Every text has a shape. -/
theorem exists_scan (text : Bytes) : ∃ pairs ret, Scan text pairs ret := by
  induction hlen : text.length using Nat.strong_induction_on generalizing text with
  | _ n ih =>
    subst hlen
    cases hcut : splitFirst '=' text with
    | none => exact ⟨[], true, .done (splitFirst_eq_none_iff.mp hcut)⟩
    | some cut =>
      obtain ⟨key, rest⟩ := cut
      obtain ⟨rfl, hkey⟩ := eq_append_of_splitFirst hcut
      cases hcut' : splitFirst '"' (rest.drop 1) with
      | none => exact ⟨[], false, .unclosed hkey (splitFirst_eq_none_iff.mp hcut')⟩
      | some cut =>
        obtain ⟨val, rest'⟩ := cut
        obtain ⟨hrest, hval⟩ := eq_append_of_splitFirst hcut'
        obtain ⟨opening, rest, rfl⟩ := List.exists_cons_of_ne_nil
          (show rest ≠ [] by rintro rfl; simp at hrest)
        obtain rfl : rest = val ++ '"' :: rest' := hrest
        have hlt : (rest'.drop 1).length <
            (key ++ '=' :: opening :: (val ++ '"' :: rest')).length := by
          simp only [List.length_append, List.length_cons, List.length_drop]
          omega
        obtain ⟨pairs, ret, h⟩ := ih _ hlt _ rfl
        exact ⟨(key, val) :: pairs, ret, .pair hkey hval h⟩

/-- A call on a text of a known shape. -/
theorem ParseStructuredPart_scan {text : Bytes} {pairs : List (Bytes × Bytes)} {ret : Bool}
    (h : Scan text pairs ret) (v : SyslogMap) (fwd_msg : Option Bytes) :
    ParseStructuredPart int_fields text v fwd_msg =
      some ⟨addPairs int_fields v pairs, (decoratePairs fwd_msg 0 pairs).1, ret⟩ :=
  parseLoop_scan h (List.drop_zero) (Nat.lt_succ_self _) v fwd_msg 0

/-- A text has one shape. -/
theorem Scan.ret_unique {text : Bytes} {pairs pairs' : List (Bytes × Bytes)} {ret ret' : Bool}
    (h : Scan text pairs ret) (h' : Scan text pairs' ret') : ret = ret' := by
  have heq := (@ParseStructuredPart_scan [] _ _ _ h .empty none).symm.trans
    (ParseStructuredPart_scan h' .empty none)
  exact congrArg PartResult.ret (Option.some.inj heq)

theorem unclosed_of_scan {text : Bytes} {pairs : List (Bytes × Bytes)} {ret : Bool}
    (h : Scan text pairs ret) (hret : ret = false) : Unclosed text := by
  induction h with
  | done => cases hret
  | unclosed hkey hrest => exact .here hkey hrest
  | @pair key val rest opening pairs ret hkey hval h ih =>
    cases rest with
    | nil =>
      -- Nothing is left to be unclosed.
      have hnil := h.ret_unique (@Scan.done [] (by simp))
      rw [hret] at hnil
      cases hnil
    | cons skipped rest => exact .behind hkey hval (ih hret)

theorem Unclosed.scan {text : Bytes} (h : Unclosed text) : ∃ pairs, Scan text pairs false := by
  induction h with
  | here hkey hrest => exact ⟨[], .unclosed hkey hrest⟩
  | behind hkey hval _ ih =>
    obtain ⟨pairs, h⟩ := ih
    exact ⟨_, .pair hkey hval h⟩

-- ---------------------------------------------------------------------------
-- Rendered pairs
-- ---------------------------------------------------------------------------

/-- A key without `=`, a value without a quote. -/
def PlainPair (p : Bytes × Bytes) : Prop := '=' ∉ p.1 ∧ '"' ∉ p.2

instance (p : Bytes × Bytes) : Decidable (PlainPair p) := inferInstanceAs (Decidable (_ ∧ _))

theorem renderPairs_cons_cons (p q : Bytes × Bytes) (pairs : List (Bytes × Bytes)) :
    renderPairs (p :: q :: pairs) =
      p.1 ++ '=' :: '"' :: (p.2 ++ '"' :: ' ' :: renderPairs (q :: pairs)) := by
  simp [renderPairs, List.intercalate]

theorem scan_render {pairs : List (Bytes × Bytes)} (h : ∀ p ∈ pairs, PlainPair p) :
    Scan (renderPairs pairs) pairs true := by
  induction pairs with
  | nil => exact .done (by simp [renderPairs, List.intercalate])
  | cons p pairs ih =>
    rw [List.forall_mem_cons] at h
    cases pairs with
    | nil =>
      have hp : Scan (p.1 ++ '=' :: '"' :: (p.2 ++ '"' :: [])) [p] true :=
        .pair h.1.1 h.1.2 (.done (by simp))
      simpa [renderPairs, List.intercalate] using hp
    | cons q pairs =>
      rw [renderPairs_cons_cons]
      exact .pair h.1.1 h.1.2 (ih h.2)

/-- The pairs are added under the keys that were not there. -/
theorem find?_addPairs (v : SyslogMap) {pairs : List (Bytes × Bytes)}
    (hnodup : (pairs.map Prod.fst).Nodup) :
    (∀ p ∈ pairs, (addPairs int_fields v pairs).find? (String.ofList p.1) =
      some ((v.find? (String.ofList p.1)).getD (pairHolder int_fields p.1 p.2))) ∧
    ∀ key, (∀ p ∈ pairs, String.ofList p.1 ≠ key) →
      (addPairs int_fields v pairs).find? key = v.find? key := by
  induction pairs generalizing v with
  | nil => exact ⟨fun _ h => absurd h (by simp), fun _ _ => rfl⟩
  | cons q pairs ih =>
    rw [List.map_cons, List.nodup_cons] at hnodup
    obtain ⟨hmem, hother⟩ :=
      ih (v.insert (String.ofList q.1) (pairHolder int_fields q.1 q.2)) hnodup.2
    have hne : ∀ p ∈ pairs, String.ofList p.1 ≠ String.ofList q.1 := by
      intro p hp heq
      have hkey : p.1 = q.1 := String.ofList_injective heq
      exact hnodup.1 (hkey ▸ List.mem_map_of_mem hp)
    refine ⟨fun p hp => ?_, fun key hkey => ?_⟩
    · show (addPairs int_fields (v.insert _ _) pairs).find? _ = _
      rcases List.mem_cons.mp hp with rfl | hp
      · rw [hother _ hne, OrderedMap.find?_insert, if_pos rfl]
      · rw [hmem p hp, OrderedMap.find?_insert, if_neg (hne p hp)]
    · rw [List.forall_mem_cons] at hkey
      show (addPairs int_fields (v.insert _ _) pairs).find? _ = _
      rw [hother key hkey.2, OrderedMap.find?_insert, if_neg (Ne.symm hkey.1)]

/-- A decimal number: digits, with a minus sign before them or not. -/
inductive Decimal : Bytes → Int → Prop
  | plain {digits : Bytes} (h : ∀ c ∈ digits, c.isDigit = true) (hne : digits ≠ []) :
    Decimal digits (Nat.ofDigitChars 10 digits 0 : Nat)
  | minus {digits : Bytes} (h : ∀ c ∈ digits, c.isDigit = true) (hne : digits ≠ []) :
    Decimal ('-' :: digits) (-(Nat.ofDigitChars 10 digits 0 : Nat))

theorem splitNumber_decimal {text : Bytes} {n : Int} (h : Decimal text n) :
    splitNumber (skip text) = some (n, []) := by
  have htake : ∀ {digits : Bytes}, (∀ c ∈ digits, c.isDigit = true) →
      digits.takeWhile Char.isDigit = digits ∧ digits.dropWhile Char.isDigit = [] :=
    fun h => ⟨List.takeWhile_eq_self_iff.mpr h, List.dropWhile_eq_nil_iff.mpr h⟩
  cases h with
  | @plain digits h hne =>
    obtain ⟨d, ds, rfl⟩ := List.exists_cons_of_ne_nil hne
    have hd := h d List.mem_cons_self
    rw [skip_cons (not_isSpace_of_isDigit hd)]
    simp only [splitNumber, splitSign_digit hd, htake h]
    simp
  | @minus digits h hne =>
    rw [skip_cons (by decide)]
    simp only [splitNumber, splitSign, htake h, if_neg hne]
    simp

/-- `atol` gives the value of a decimal number that fits a `long`. -/
theorem atol_decimal {text : Bytes} {n : Int} (h : Decimal text n) (hn : -2 ^ 63 ≤ n)
    (hn' : n < 2 ^ 63) : atol text = n := by
  rw [atol, splitNumber_decimal h]
  show max _ (min n _) = n
  omega

/-- Rendered pairs are all read, and those whose key was not there are added, integer fields
with what `atol` gives: of a number that fits its value; and a call on any text comes to an end without a position out of
range, and returns false exactly when some `key=` is not followed by a closing quote. -/
theorem parseStructuredPart_spec (int_fields : List String) (v : SyslogMap)
    (fwd_msg : Option Bytes) :
    (∀ pairs : List (Bytes × Bytes), (pairs.map Prod.fst).Nodup → (∀ p ∈ pairs, PlainPair p) →
      ∃ result, ParseStructuredPart int_fields (renderPairs pairs) v fwd_msg = some result ∧
        result.ret = true ∧
        (∀ p ∈ pairs, v.find? (String.ofList p.1) = none →
          (String.ofList p.1 ∉ int_fields →
            result.v.find? (String.ofList p.1) = some (.str p.2)) ∧
          (String.ofList p.1 ∈ int_fields →
            result.v.find? (String.ofList p.1) = some (.int (atol p.2)) ∧
            ∀ n, Decimal p.2 n → -2 ^ 63 ≤ n → n < 2 ^ 63 → atol p.2 = n)) ∧
        (∀ key x, v.find? key = some x → result.v.find? key = some x) ∧
        ∀ key, (∀ p ∈ pairs, String.ofList p.1 ≠ key) → result.v.find? key = v.find? key) ∧
    ∀ text, ∃ result, ParseStructuredPart int_fields text v fwd_msg = some result ∧
      (result.ret = false ↔ Unclosed text) := by
  constructor
  · intro pairs hnodup hplain
    obtain ⟨hmem, hother⟩ := @find?_addPairs int_fields v pairs hnodup
    refine ⟨_, ParseStructuredPart_scan (scan_render hplain) v fwd_msg, rfl, fun p hp hnone => ?_,
      fun key x hx => ?_, hother⟩
    · have hfield := hmem p hp
      rw [hnone, Option.getD_none] at hfield
      refine ⟨fun hint => ?_, fun hint => ⟨?_, fun n hn hge hlt => atol_decimal hn hge hlt⟩⟩
      · rw [hfield, pairHolder, if_neg hint]
      · rw [hfield, pairHolder, if_pos hint]
    · by_cases hkey : ∃ p ∈ pairs, String.ofList p.1 = key
      · obtain ⟨p, hp, rfl⟩ := hkey
        rw [hmem p hp, hx]
        rfl
      · push Not at hkey
        rw [hother key hkey, hx]
  · intro text
    obtain ⟨pairs, ret, hscan⟩ := exists_scan text
    refine ⟨_, ParseStructuredPart_scan hscan v fwd_msg, fun hret => unclosed_of_scan hscan hret,
      fun h => ?_⟩
    obtain ⟨pairs', hscan'⟩ := h.scan
    exact hscan.ret_unique hscan'

/-- Three pairs, two of them integer fields, one of these without a number; the first key is
there already. -/
theorem parseStructuredPart_sample :
    ∃ result, ParseStructuredPart ["bytes", "packets"]
        (renderPairs [("reason".toList, "a=b ]".toList), ("bytes".toList, "-12".toList),
          ("packets".toList, "N/A".toList)])
        (OrderedMap.empty.insert "reason" (.str [])) none = some result ∧
      result.v.find? "bytes" = some (.int (-12)) ∧ result.v.find? "packets" = some (.int 0) := by
  obtain ⟨result, hresult, -, hadd, -⟩ := (parseStructuredPart_spec ["bytes", "packets"]
    (OrderedMap.empty.insert "reason" (.str [])) none).1
      [("reason".toList, "a=b ]".toList), ("bytes".toList, "-12".toList),
        ("packets".toList, "N/A".toList)] (by decide) (by decide)
  obtain ⟨hbytes, hvalue⟩ := (hadd ("bytes".toList, "-12".toList) (by simp) (by decide)).2 (by decide)
  obtain ⟨hpackets, -⟩ := (hadd ("packets".toList, "N/A".toList) (by simp) (by decide)).2 (by decide)
  have hdecimal : Decimal "-12".toList (-12) :=
    @Decimal.minus "12".toList (List.all_eq_true.mp rfl) (by decide)
  refine ⟨result, hresult, hbytes.trans ?_, hpackets.trans (by decide +kernel)⟩
  rw [hvalue (-12) hdecimal (by decide) (by decide)]

end TfAnalytics.Collector
