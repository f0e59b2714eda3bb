import TfAnalytics.Lib.Delimited
import TfAnalytics.Collector.SyslogTurns

/-!
# Collector — the bytes the structured syslog loop touches

Every index that `ProcessStructuredSyslog` reads and every range it hands on or
copies, in order: the loop that drops trailing NULs, the two scans of a turn, the
digits of the length, the ranges of `parse_syslog`, of the log lines and of
`StructuredSyslogPostParsing`.

Three of them can leave the buffer. The NULs are dropped without a look at the
beginning; without a session nobody compares `end` with the buffer, although a
length prefix can put it anywhere; and the log line for a rest that is too long for
the session buffer ends at byte 2048 wherever it starts.

`parse_syslog` is assumed to report a `msglen` only for a text that is longer than
its digits, as `int_ >> '<'` does.

Main results:

* `turn_inside_iff` — when one turn stays inside.
* `process_inside_iff` — when a call does.
-/

namespace TfAnalytics.Collector

open TfAnalytics.Lib

def NUL : Char := Char.ofNat 0

-- ---------------------------------------------------------------------------
-- What is touched
-- ---------------------------------------------------------------------------

inductive Access where
  | index (i : Int)
  | range (first last : Int)
  deriving DecidableEq

/-- In a buffer of this size; a range may end behind its last byte. -/
def Access.Inside (size : Nat) : Access → Prop
  | index i => 0 ≤ i ∧ i < size
  | range first last => 0 ≤ first ∧ first ≤ last ∧ last ≤ size

theorem Access.Inside.mono {size size' : Nat} (hle : size ≤ size') {a : Access}
    (h : a.Inside size) : a.Inside size' := by
  cases a with
  | index i =>
    obtain ⟨h0, hi⟩ := h
    exact ⟨h0, by omega⟩
  | range first last =>
    obtain ⟨h0, horder, hlast⟩ := h
    exact ⟨h0, horder, by omega⟩

/-- `while (!*(data + len - 1)) --len`. -/
def trimReads (data : Bytes) : Nat → List Access
  | 0 => [.index (-1)]
  | len + 1 => .index len :: if data[len]? = some NUL then trimReads data len else []

/-- The buffer of the loop and its `len`: with a session the kept bytes and the new
ones in a string, otherwise the datagram itself. -/
def receive (data : Bytes) (sess_buf : Option Bytes) : Bytes × Nat :=
  let trimmed := data.rdropWhile (· == NUL)
  match sess_buf with
  | some kept => (kept ++ trimmed, (kept ++ trimmed).length)
  | none => (data, trimmed.length)

/-- The reads of `scanTo`. -/
def scanReads (c : Char) (p : Bytes) : Nat → Nat → List Nat
  | 0, i => [i - 1]
  | k + 1, i => (i - 1) :: if p[i - 1]? = some c then [] else scanReads c p k (i + 1)

/-- The reads of `scanDelimiter`. -/
def delimiterReads (p : Bytes) : Nat → Nat → Nat → List Nat
  | 0, _, len_end => [len_end - 1]
  | k + 1, stop, len_end =>
    (len_end - 1) ::
      if p[len_end - 1]? = some ']' then []
      else (stop - 1) :: delimiterReads p k (stop + 1) (len_end + 1)

/-- The reads of the loop over the digits of a length, up to the first other byte. -/
def digitReads (p : Bytes) (start len_end : Nat) : List Nat :=
  let word := (p.take (len_end - 1)).drop start
  List.range' start (min ((word.takeWhile Char.isDigit).length + 1) word.length)

/-- The reads that locate a message. -/
def locateReads (p : Bytes) (start : Nat) : List Nat :=
  let len_end := scanTo ' ' p (p.length - (start + 1)) (start + 1)
  scanReads ' ' p (p.length - (start + 1)) (start + 1) ++
    if len_end ≠ p.length then
      digitReads p start len_end ++
        if prependedLength p start len_end ≠ 0 then []
        else delimiterReads p (p.length - len_end) (start + 1) len_end
    else []

variable {V : Type}

/-- The range handed to `StructuredSyslogPostParsing` begins behind the length. -/
def handedStart (len messageStart : Nat) (msglen : Option Int) : Nat :=
  if msglen.getD len = (len : Int) then messageStart
  else messageStart + lenstrLength (msglen.getD 0)

/-- The string that `strtol` is given, `std::string(p + start, p + len_end)`. -/
def lengthRange (p : Bytes) (start : Nat) : List Access :=
  let len_end := scanTo ' ' p (p.length - (start + 1)) (start + 1)
  if len_end ≠ p.length ∧ ((p.take (len_end - 1)).drop start).all Char.isDigit = true then
    [.range start len_end]
  else []

/-- What is read to find the message and to see whether it is complete. -/
def scanAccesses (p : Bytes) (len start : Nat) : List Access :=
  (locateReads (p.take len) start).map (fun i : Nat => .index i) ++
  lengthRange (p.take len) start ++
  if messageEnd p len start = len then [.index (messageEnd p len start - 1 : Nat)] else []

/-- The ranges of the message: kept or logged when it is incomplete, otherwise given
to `parse_syslog` (and the log) and handed on. -/
def messageAccesses (ps : SyslogParser V) (session : Bool) (p : Bytes) (len start : Nat) :
    List Access :=
  if Incomplete p len start session then
    if len - messageStart p len start < 5120 then [.range (messageStart p len start) len]
    else [.range (messageStart p len start) 2048]
  else
    .range (messageStart p len start) (messageEnd p len start) ::
      match parsedIn ps p len start with
      | none => []
      | some msglen =>
        [.range (handedStart len (messageStart p len start) msglen) (messageEnd p len start)]

/-- Everything one turn touches. -/
def turnAccesses (ps : SyslogParser V) (session : Bool) (p : Bytes) (len start : Nat) :
    List Access :=
  scanAccesses p len start ++ messageAccesses ps session p len start

/-- Everything a call touches is in the buffer: the received one while NULs are
dropped and the rest is copied, then the one of the loop. -/
def StaysInside (ps : SyslogParser V) (data : Bytes) (sess_buf : Option Bytes) : Prop :=
  (∀ a ∈ trimReads data data.length ++ [.range 0 (data.rdropWhile (· == NUL)).length],
    a.Inside data.length) ∧
  ∀ start, Reached ps sess_buf.isSome (receive data sess_buf).1 (receive data sess_buf).2 start →
    ∀ a ∈ turnAccesses ps sess_buf.isSome (receive data sess_buf).1 (receive data sess_buf).2 start,
      a.Inside (receive data sess_buf).1.length

-- ---------------------------------------------------------------------------
-- The reads of a turn
-- ---------------------------------------------------------------------------

theorem scanReads_lt (c : Char) (p : Bytes) {k i : Nat} (hi : 1 ≤ i) :
    ∀ r ∈ scanReads c p k i, r < i + k := by
  induction k generalizing i with
  | zero =>
    intro r hr
    rw [scanReads, List.mem_singleton] at hr
    omega
  | succ k ih =>
    intro r hr
    rw [scanReads] at hr
    rcases List.mem_cons.mp hr with rfl | hr
    · omega
    · split at hr
      · exact absurd hr List.not_mem_nil
      · have := ih (by omega) r hr
        omega

theorem delimiterReads_lt (p : Bytes) {k stop len_end : Nat} (hpos : 1 ≤ stop)
    (hstop : stop ≤ len_end) : ∀ r ∈ delimiterReads p k stop len_end, r < len_end + k := by
  induction k generalizing stop len_end with
  | zero =>
    intro r hr
    rw [delimiterReads, List.mem_singleton] at hr
    omega
  | succ k ih =>
    intro r hr
    rw [delimiterReads] at hr
    rcases List.mem_cons.mp hr with rfl | hr
    · omega
    · split at hr
      · exact absurd hr List.not_mem_nil
      · rcases List.mem_cons.mp hr with rfl | hr
        · omega
        · have := ih (by omega) (by omega) r hr
          omega

theorem digitReads_lt (p : Bytes) {start len_end : Nat} :
    ∀ r ∈ digitReads p start len_end, r < len_end - 1 ∧ r < p.length := by
  intro r hr
  have hrange := List.mem_range'_1.mp hr
  have hlen : ((p.take (len_end - 1)).drop start).length ≤ min (len_end - 1) p.length - start := by
    rw [List.length_drop, List.length_take]
  omega

theorem locateReads_lt {p : Bytes} {start : Nat} (h : start < p.length) :
    ∀ r ∈ locateReads p start, r < p.length := by
  intro r hr
  have hscan := scanTo_bounds ' ' p (p.length - (start + 1)) (start + 1)
  rcases List.mem_append.mp hr with hr | hr
  · have := scanReads_lt ' ' p (by omega) r hr
    omega
  · split at hr
    · rcases List.mem_append.mp hr with hr | hr
      · exact (digitReads_lt p r hr).2
      · split at hr
        · exact absurd hr List.not_mem_nil
        · have := delimiterReads_lt p (by omega) hscan.1 r hr
          omega
    · exact absurd hr List.not_mem_nil

theorem lengthRange_inside {p : Bytes} {start : Nat} (h : start < p.length) :
    ∀ a ∈ lengthRange p start, a.Inside p.length := by
  intro a ha
  have hscan := scanTo_bounds ' ' p (p.length - (start + 1)) (start + 1)
  simp only [lengthRange] at ha
  split at ha
  · rw [List.mem_singleton] at ha
    subst ha
    exact ⟨by omega, by omega, by omega⟩
  · exact absurd ha List.not_mem_nil

/-- The located end is in the buffer, unless a length puts it beyond. -/
theorem messageEnd_le_of_not_incomplete {p : Bytes} {len start : Nat}
    (h : ¬ Incomplete p len start true) : messageEnd p len start ≤ len := by
  by_contra hgt
  exact h ⟨.inl (by omega), rfl⟩

/-- A `msglen` is shorter than the text it was read from. -/
def ReadsPrefix (ps : SyslogParser V) : Prop :=
  ∀ text v m, ps.parse_syslog text = some v → ps.msglen v = some m → lenstrLength m ≤ text.length

theorem handedStart_le {ps : SyslogParser V} (hps : ReadsPrefix ps) {p : Bytes} {len start : Nat}
    (hbounds : messageStart p len start < messageEnd p len start) {msglen : Option Int}
    (h : parsedIn ps p len start = some msglen) :
    messageStart p len start ≤ handedStart len (messageStart p len start) msglen ∧
      handedStart len (messageStart p len start) msglen ≤ messageEnd p len start := by
  obtain ⟨v, hv, rfl⟩ := Option.map_eq_some_iff.mp h
  unfold handedStart
  split
  · exact ⟨le_refl _, le_of_lt hbounds⟩
  next hne =>
    cases hm : ps.msglen v with
    | none =>
      rw [hm] at hne
      exact absurd rfl hne
    | some m =>
      have hle := hps _ v m hv hm
      have htext : (messageText p len start).length ≤
          messageEnd p len start - messageStart p len start := by
        unfold messageText
        rw [List.length_drop, List.length_take]
        omega
      rw [Option.getD_some]
      omega

-- ---------------------------------------------------------------------------
-- When a turn stays inside
-- ---------------------------------------------------------------------------

/-- The digits in front of the first space, with something behind it, end the message
inside of the buffer. -/
def LengthFits (p : Bytes) (len start : Nat) : Prop :=
  ∀ digits rest, (p.take len).drop start = digits ++ ' ' :: rest →
    (∀ c ∈ digits, c.isDigit = true) → rest ≠ [] →
    start + digits.length + 1 + min (Nat.ofDigitChars 10 digits 0) LONG_MAX ≤ p.length

/-- In a session: the rest is not logged from behind byte 2048. Otherwise: no length
leads beyond the datagram. -/
def EndInside (session : Bool) (p : Bytes) (len start : Nat) : Prop :=
  if session = true then
    ¬ (Incomplete p len start true ∧ 5120 ≤ len - messageStart p len start ∧
      2048 < messageStart p len start)
  else LengthFits p len start

/-- The message ends in the buffer if its length does. -/
theorem messageEnd_le_iff {p : Bytes} {len start : Nat} (hle : len ≤ p.length)
    (hstart : start < len) : messageEnd p len start ≤ p.length ↔ LengthFits p len start := by
  obtain ⟨pre, text, hbuf, rfl⟩ : ∃ pre text, p.take len = pre ++ text ∧ pre.length = start :=
    ⟨(p.take len).take start, (p.take len).drop start, (List.take_append_drop _ _).symm, by
      rw [List.length_take, List.length_take]
      omega⟩
  have hlen : (pre ++ text).length = len := by
    rw [← hbuf]
    exact List.length_take_of_le hle
  rw [List.length_append] at hlen
  have hne : text ≠ [] := List.ne_nil_of_length_pos (by omega)
  obtain ⟨l, c, rfl⟩ : ∃ l c, text = l ++ [c] :=
    ⟨text.dropLast, text.getLast hne, (List.dropLast_append_getLast hne).symm⟩
  rw [messageEnd, LengthFits, hbuf, List.drop_left]
  by_cases hspace : ' ' ∈ l
  · obtain ⟨word, rest, rfl, hword⟩ := List.eq_append_cons_of_mem hspace
    -- no digit is a space, so that the digits are the word
    have hfits : (∀ digits rest', word ++ ' ' :: rest ++ [c] = digits ++ ' ' :: rest' →
        (∀ d ∈ digits, d.isDigit = true) → rest' ≠ [] →
          pre.length + digits.length + 1 + min (Nat.ofDigitChars 10 digits 0) LONG_MAX ≤
            p.length) ↔
        (word.all Char.isDigit = true →
          pre.length + word.length + 1 + min (Nat.ofDigitChars 10 word 0) LONG_MAX ≤
            p.length) := by
      rw [List.append_assoc, List.cons_append]
      constructor
      · intro h hdigits
        exact h word _ rfl (List.all_eq_true.mp hdigits) (by simp)
      · intro h digits rest' heq hdigits _
        have hfirst := splitFirst_append hword (rest ++ [c])
        rw [heq, splitFirst_append (fun hmem => absurd (hdigits _ hmem) (by decide)) rest',
          Option.some.injEq, Prod.mk.injEq] at hfirst
        rw [hfirst.1] at hdigits ⊢
        exact h (List.all_eq_true.mpr hdigits)
    rw [hfits, List.append_assoc, List.cons_append, locate_word hword (by simp)]
    have hscan := scanDelimiter_bounds (pre ++ (word ++ ' ' :: (rest ++ [c]))) (rest ++ [c]).length
      pre.length (pre.length + 1) (pre.length + word.length + 1) (le_refl _) (by omega)
    have htotal : pre.length + word.length + 1 + (rest ++ [c]).length = len := by
      rw [← hlen]
      simp
      omega
    by_cases hdigits : word.all Char.isDigit = true
    · simp only [hdigits, ↓reduceIte, forall_const]
      by_cases hzero : min (Nat.ofDigitChars 10 word 0) LONG_MAX ≠ 0
      · rw [if_pos hzero]
      · rw [if_neg hzero]
        exact iff_of_true (by omega) (by omega)
    · simp only [if_neg hdigits]
      rw [if_neg (by simp)]
      exact iff_of_true (by omega) fun h => absurd h hdigits
  · rw [locate_spaceless pre l c hspace]
    refine iff_of_true ?_ fun digits rest heq _ hrest => ?_
    · show (pre ++ (l ++ [c])).length ≤ p.length
      rw [List.length_append, hlen]
      exact hle
    obtain ⟨before, last, rfl⟩ := (List.eq_nil_or_concat rest).resolve_left hrest
    rw [List.concat_eq_append, ← List.cons_append, ← List.append_assoc] at heq
    rw [(List.append_inj' heq rfl).1] at hspace
    exact absurd (List.mem_append_right _ List.mem_cons_self) hspace

theorem scanAccesses_inside {p : Bytes} {len start : Nat} (hle : len ≤ p.length)
    (hstart : start < len) : ∀ a ∈ scanAccesses p len start, a.Inside p.length := by
  have htake : (p.take len).length = len := List.length_take_of_le hle
  obtain ⟨-, -, hme, -⟩ := message_bounds hle hstart
  intro a ha
  rcases List.mem_append.mp ha with ha | ha
  · rcases List.mem_append.mp ha with ha | ha
    · obtain ⟨r, hr, rfl⟩ := List.mem_map.mp ha
      have := locateReads_lt (by omega) r hr
      exact ⟨by omega, by omega⟩
    · have hin := lengthRange_inside (by omega) a ha
      exact hin.mono (by omega)
  · split at ha
    next heq =>
      rw [List.mem_singleton] at ha
      subst ha
      exact ⟨by omega, by omega⟩
    · exact absurd ha List.not_mem_nil

theorem turn_inside_iff {ps : SyslogParser V} (hps : ReadsPrefix ps) {session : Bool} {p : Bytes}
    {len start : Nat} (hle : len ≤ p.length) (hsession : session = true → len = p.length)
    (hstart : start < len) :
    (∀ a ∈ turnAccesses ps session p len start, a.Inside p.length) ↔
      EndInside session p len start := by
  obtain ⟨hms, hlt, hme, hmlt⟩ := message_bounds hle hstart
  rw [turnAccesses, List.forall_mem_append,
    and_iff_right (scanAccesses_inside hle hstart)]
  unfold messageAccesses EndInside
  by_cases hinc : Incomplete p len start session
  · -- only a session keeps or discards a rest
    have hs := hinc.2
    subst hs
    have hlen := hsession rfl
    rw [if_pos hinc, if_pos rfl]
    split
    next hshort =>
      rw [List.forall_mem_singleton]
      exact iff_of_true ⟨by omega, by omega, by omega⟩ fun h => by omega
    next hlong =>
      rw [List.forall_mem_singleton]
      constructor
      · rintro ⟨-, horder, -⟩ ⟨-, -, hfar⟩
        omega
      · intro h
        have hnear : ¬ 2048 < messageStart p len start := fun hfar => h ⟨hinc, by omega, hfar⟩
        exact ⟨by omega, by omega, by omega⟩
  · rw [if_neg hinc, List.forall_mem_cons]
    have hhanded : messageEnd p len start ≤ p.length → ∀ a ∈ (match parsedIn ps p len start with
        | none => []
        | some msglen =>
          [.range (handedStart len (messageStart p len start) msglen) (messageEnd p len start)] :
        List Access), a.Inside p.length := by
      intro hend
      cases hparse : parsedIn ps p len start with
      | none => exact fun a ha => absurd ha List.not_mem_nil
      | some msglen =>
        obtain ⟨hge, hle'⟩ := handedStart_le hps hlt hparse
        show ∀ a ∈ [_], _
        rw [List.forall_mem_singleton]
        exact ⟨by omega, by omega, by omega⟩
    by_cases hs : session = true
    · subst hs
      have hend := (messageEnd_le_of_not_incomplete hinc).trans hle
      rw [if_pos rfl]
      exact iff_of_true ⟨⟨by omega, by omega, by omega⟩, hhanded hend⟩ fun h => hinc h.1
    · rw [if_neg hs, ← messageEnd_le_iff hle hstart]
      constructor
      · rintro ⟨⟨-, -, hlast⟩, -⟩
        omega
      · intro hend
        exact ⟨⟨by omega, by omega, by omega⟩, hhanded hend⟩

-- ---------------------------------------------------------------------------
-- When a call stays inside
-- ---------------------------------------------------------------------------

theorem trimReads_inside_iff {data : Bytes} {size : Nat} (len : Nat) (hlen : len ≤ size) :
    (∀ a ∈ trimReads data len, a.Inside size) ↔ ∃ i < len, data[i]? ≠ some NUL := by
  induction len with
  | zero =>
    refine iff_of_false (fun h => ?_) (by simp)
    have := (h _ (List.mem_singleton_self _)).1
    omega
  | succ len ih =>
    rw [trimReads]
    have hfirst : Access.Inside size (.index len) := ⟨by omega, by omega⟩
    by_cases hnul : data[len]? = some NUL
    · rw [if_pos hnul, List.forall_mem_cons, ih (by omega)]
      constructor
      · rintro ⟨-, i, hi, hne⟩
        exact ⟨i, by omega, hne⟩
      · rintro ⟨i, hi, hne⟩
        refine ⟨hfirst, i, ?_, hne⟩
        rcases Nat.lt_succ_iff_lt_or_eq.mp hi with hi | rfl
        · exact hi
        · exact absurd hnul hne
    · rw [if_neg hnul]
      refine iff_of_true ?_ ⟨len, by omega, hnul⟩
      rw [List.forall_mem_singleton]
      exact hfirst

theorem exists_ne_nul_iff (data : Bytes) :
    (∃ i < data.length, data[i]? ≠ some NUL) ↔ ∃ c ∈ data, c ≠ NUL := by
  constructor
  · rintro ⟨i, hi, hne⟩
    refine ⟨data[i], List.getElem_mem hi, fun heq => hne ?_⟩
    rw [List.getElem?_eq_getElem hi, heq]
  · rintro ⟨c, hc, hne⟩
    obtain ⟨i, hi, rfl⟩ := List.getElem_of_mem hc
    refine ⟨i, hi, fun heq => hne ?_⟩
    rw [List.getElem?_eq_getElem hi, Option.some.injEq] at heq
    exact heq

theorem rdropWhile_length_le (data : Bytes) :
    (data.rdropWhile (· == NUL)).length ≤ data.length :=
  (List.rdropWhile_prefix _ _).length_le

theorem rdropWhile_ne_nil {data : Bytes} (h : ∃ c ∈ data, c ≠ NUL) :
    data.rdropWhile (· == NUL) ≠ [] := by
  obtain ⟨c, hc, hne⟩ := h
  intro hnil
  have := List.rdropWhile_eq_nil_iff.mp hnil c hc
  exact hne (eq_of_beq this)

theorem receive_len {data : Bytes} {sess_buf : Option Bytes} (h : ∃ c ∈ data, c ≠ NUL) :
    0 < (receive data sess_buf).2 ∧
      (receive data sess_buf).2 ≤ (receive data sess_buf).1.length ∧
      (sess_buf.isSome = true → (receive data sess_buf).2 = (receive data sess_buf).1.length) := by
  have hpos := List.length_pos_of_ne_nil (rdropWhile_ne_nil h)
  have hle := rdropWhile_length_le data
  cases sess_buf with
  | none => exact ⟨hpos, hle, fun h => absurd h (by simp)⟩
  | some kept =>
    refine ⟨?_, le_refl _, fun _ => rfl⟩
    show 0 < (kept ++ data.rdropWhile (· == NUL)).length
    rw [List.length_append]
    omega

/-- A call stays inside if and only if the data are not NULs only and every turn
stays inside. -/
theorem process_inside_iff {ps : SyslogParser V} (hps : ReadsPrefix ps) (data : Bytes)
    (sess_buf : Option Bytes) :
    StaysInside ps data sess_buf ↔
      (∃ c ∈ data, c ≠ NUL) ∧
      ∀ start,
        Reached ps sess_buf.isSome (receive data sess_buf).1 (receive data sess_buf).2 start →
        EndInside sess_buf.isSome (receive data sess_buf).1 (receive data sess_buf).2 start := by
  have htrim : (∀ a ∈ trimReads data data.length ++
      [.range 0 (data.rdropWhile (· == NUL)).length], a.Inside data.length) ↔
      ∃ c ∈ data, c ≠ NUL := by
    rw [List.forall_mem_append, trimReads_inside_iff _ (le_refl _), exists_ne_nul_iff]
    refine and_iff_left ?_
    rw [List.forall_mem_singleton]
    have := rdropWhile_length_le data
    exact ⟨by omega, by omega, by omega⟩
  unfold StaysInside
  rw [htrim]
  refine and_congr_right fun hdata => ?_
  obtain ⟨hpos, hle, hsession⟩ := @receive_len data sess_buf hdata
  constructor
  · intro h start hreached
    exact (turn_inside_iff hps hle hsession (reached_lt hpos hreached)).mp (h start hreached)
  · intro h start hreached
    exact (turn_inside_iff hps hle hsession (reached_lt hpos hreached)).mpr (h start hreached)

/-- A grammar for messages without a length. -/
def plainParser : SyslogParser Unit where
  parse_syslog text := if text.head? = some '<' then some () else none
  msglen _ := none
  postParsing v := v

theorem lengthParser_readsPrefix : ReadsPrefix lengthParser := by
  intro text v m hparse hm
  obtain rfl : (v : Int) = m := Option.some.inj hm
  simp only [lengthParser] at hparse
  split at hparse
  · exact absurd hparse (by simp)
  next hdigits =>
    split at hparse
    next hopens =>
      obtain rfl := Option.some.inj hparse
      -- the digits that are printed again are no more than those that were read
      have hread : 0 < (text.takeWhile Char.isDigit).length :=
        List.length_pos_of_ne_nil fun h => hdigits (by rw [h]; rfl)
      have hprinted := (Nat.length_toDigits_le_iff (b := 10) (by decide) hread).mpr
        (ofDigitChars_lt fun c hc => List.mem_takeWhile_imp hc)
      -- and the `<` is behind them
      have hrest : text.dropWhile Char.isDigit ≠ [] := by
        intro h
        rw [h] at hopens
        exact absurd hopens (by decide)
      have htext := congrArg List.length (List.takeWhile_append_dropWhile (p := Char.isDigit) (l := text))
      rw [List.length_append] at htext
      have hpos := List.length_pos_of_ne_nil hrest
      rw [lenstrLength, intText, if_neg (by omega), Int.natAbs_natCast]
      omega
    · exact absurd hparse (by simp)

/-- A datagram of two messages with their lengths. -/
theorem process_inside_sample :
    StaysInside lengthParser (sampleFrame.text ++ sampleFrame.text ++ [NUL]) none := by
  refine (process_inside_iff lengthParser_readsPrefix _ none).mpr
    ⟨⟨'4', List.mem_cons_self, by decide⟩, ?_⟩
  have hended : turnStarts lengthParser false
      (receive (sampleFrame.text ++ sampleFrame.text ++ [NUL]) none).1
      (receive (sampleFrame.text ++ sampleFrame.text ++ [NUL]) none).2 2 = none := by
    decide +kernel
  intro start hreached
  obtain ⟨n, hn, hstart⟩ := reached_of_ended hended hreached
  have hlen : (receive (sampleFrame.text ++ sampleFrame.text ++ [NUL]) none).2 ≤
      (receive (sampleFrame.text ++ sampleFrame.text ++ [NUL]) none).1.length := by
    decide +kernel
  have hlt := reached_lt (by decide +kernel) hreached
  refine (messageEnd_le_iff hlen hlt).mp ?_
  rcases Nat.lt_succ_iff_lt_or_eq.mp hn with hn | rfl
  · obtain rfl : n = 0 := by omega
    obtain rfl : 0 = start := Option.some.inj hstart
    decide +kernel
  · have hsecond : turnStarts lengthParser false
        (receive (sampleFrame.text ++ sampleFrame.text ++ [NUL]) none).1
        (receive (sampleFrame.text ++ sampleFrame.text ++ [NUL]) none).2 1 = some 44 := by
      decide +kernel
    obtain rfl : 44 = start := Option.some.inj (hsecond.symm.trans hstart)
    decide +kernel

/-- A datagram of NULs, and one with a length beyond its end. -/
theorem not_staysInside :
    ¬ StaysInside plainParser [NUL] none ∧
    ¬ StaysInside plainParser "99 <14>1 x]".toList none := by
  constructor
  · rintro ⟨h, -⟩
    have := (h (.index (-1)) (by decide)).1
    omega
  · rintro ⟨-, h⟩
    have hmem := h 0 ⟨0, rfl⟩ (.range 0 102) (by decide +kernel)
    have := hmem.2.2
    revert this
    decide +kernel

end TfAnalytics.Collector
