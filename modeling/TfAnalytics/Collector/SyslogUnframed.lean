import TfAnalytics.Collector.SyslogBounds

/-!
# Collector — structured syslogs without a length

A message without a length begins with `<`, has a space and ends with its only `]`.
The loop looks for the `]` from the first space on; with every byte it looks at
there it also looks at one byte from the start of the message on, and moves `start`
to each `<` it sees. After a message that was parsed it goes on behind the byte that
follows the `]`.

So a `<` inside of a message cuts it off, unless it stands so near the end that the
loop has found the `]` before it sees it, and the message behind a parsed one has
lost its `<`. `parse_syslog` is assumed to report no `msglen` for a text that begins
with `<`, as `int_` does not match it.

Main results:

* `locate_unframed` — where a message is located.
* `handsExactly_iff` — when `parse_syslog` is given exactly the messages.
-/

namespace TfAnalytics.Collector

variable {V : Type}

-- ---------------------------------------------------------------------------
-- Messages and calls
-- ---------------------------------------------------------------------------

/-- A complete message without a length. -/
structure Unframed (m : Bytes) : Prop where
  opens : m.head? = some '<'
  space : ' ' ∈ m
  closes : ∃ body, m = body ++ [']'] ∧ ']' ∉ body

/-- The texts `parse_syslog` is called with from `start` on, in a run that ends. -/
def parseCalls (ps : SyslogParser V) (session : Bool) (p : Bytes) (len : Nat) :
    Nat → Nat → Option (List Bytes)
  | 0, _ => none
  | fuel + 1, start =>
    if Incomplete p len start session then some []
    else if nextStart ps p len start < len then
      (parseCalls ps session p len fuel (nextStart ps p len start)).map
        (messageText p len start :: ·)
    else some [messageText p len start]

/-- The call on the concatenated messages ends, and `parse_syslog` was given exactly
these, in order. -/
def HandsExactly (ps : SyslogParser V) (sess_buf : Option Bytes) (messages : List Bytes) : Prop :=
  ∃ fuel, parseCalls ps sess_buf.isSome (receive messages.flatten sess_buf).1
    (receive messages.flatten sess_buf).2 fuel 0 = some messages

/-- The number of bytes between the first space and the last byte. -/
def bytesBehindSpace (m : Bytes) : Nat := m.length - (m.takeWhile (· ≠ ' ')).length - 2

/-- Behind the first byte there is no `<` in as many bytes as there are between the
first space and the `]`. -/
def NoEarlyOpen (m : Bytes) : Prop := '<' ∉ m.tail.take (bytesBehindSpace m)

/-- A message split at its first space. -/
def joined (word body : Bytes) : Bytes := '<' :: (word ++ ' ' :: (body ++ [']']))

theorem Unframed.split {m : Bytes} (h : Unframed m) :
    ∃ word body, m = joined word body ∧ ' ' ∉ word ∧ ']' ∉ body := by
  obtain ⟨rest, hrest⟩ : ∃ rest, m = '<' :: rest := by
    cases m with
    | nil => exact absurd h.opens (by simp)
    | cons c rest =>
      obtain rfl : c = '<' := Option.some.inj h.opens
      exact ⟨rest, rfl⟩
  have hspace : ' ' ∈ rest := by
    rcases List.mem_cons.mp (hrest ▸ h.space) with heq | hmem
    · exact absurd heq (by decide)
    · exact hmem
  obtain ⟨word, tail, hsplit, hword⟩ := List.eq_append_cons_of_mem hspace
  obtain ⟨all, hall, hnot⟩ := h.closes
  have hlast : m.getLast? = some ']' := by rw [hall, List.getLast?_concat]
  obtain ⟨body, hbody⟩ : ∃ body, tail = body ++ [']'] := by
    rcases List.eq_nil_or_concat tail with rfl | ⟨body, c, rfl⟩
    · have hm : m = ('<' :: word) ++ [' '] := by rw [hrest, hsplit]; rfl
      rw [hm, List.getLast?_concat] at hlast
      exact absurd hlast (by decide)
    · have hm : m = ('<' :: (word ++ ' ' :: body)) ++ [c] := by
        rw [hrest, hsplit]
        simp
      rw [hm, List.getLast?_concat] at hlast
      exact ⟨body, by rw [List.concat_eq_append, Option.some.inj hlast]⟩
  refine ⟨word, body, by rw [joined, hrest, hsplit, hbody], hword, fun hmem => hnot ?_⟩
  have heq : all ++ [']'] = ('<' :: (word ++ ' ' :: body)) ++ [']'] := by
    rw [← hall, hrest, hsplit, hbody]
    simp
  rw [List.append_cancel_right heq]
  simp [hmem]

theorem length_joined (word body : Bytes) :
    (joined word body).length = word.length + body.length + 3 := by
  simp [joined]
  omega

theorem bytesBehindSpace_joined {word : Bytes} (hword : ' ' ∉ word) (body : Bytes) :
    bytesBehindSpace (joined word body) = body.length := by
  have htake : (joined word body).takeWhile (· ≠ ' ') = '<' :: word := by
    have hall : ∀ c ∈ '<' :: word, (decide (c ≠ ' ')) = true := by
      intro c hc
      rcases List.mem_cons.mp hc with rfl | hc
      · decide
      · exact decide_eq_true fun heq => hword (heq ▸ hc)
    show (('<' :: word) ++ ' ' :: (body ++ [']'])).takeWhile (· ≠ ' ') = _
    rw [List.takeWhile_append_of_pos hall]
    simp
  rw [bytesBehindSpace, htake, length_joined]
  simp
  omega

-- ---------------------------------------------------------------------------
-- Locating a message
-- ---------------------------------------------------------------------------

/-- The loop that looks for `]`, when this is `k` turns away: `start` stays if none
of the bytes seen is a `<`, and is one of them otherwise. -/
theorem scanDelimiter_turns (p : Bytes) {k fuel start stop len_end : Nat} (hstop : 1 ≤ stop)
    (hend : 1 ≤ len_end) (hbefore : ∀ j < k, p[len_end - 1 + j]? ≠ some ']')
    (hat : p[len_end - 1 + k]? = some ']') (hfuel : k ≤ fuel) :
    (scanDelimiter p fuel start stop len_end).2 = len_end + k ∧
      ((∀ j < k, p[stop - 1 + j]? ≠ some '<') →
        (scanDelimiter p fuel start stop len_end).1 = start) ∧
      ((∃ j < k, p[stop - 1 + j]? = some '<') →
        stop - 1 ≤ (scanDelimiter p fuel start stop len_end).1) := by
  induction k generalizing fuel start stop len_end with
  | zero =>
    rw [Nat.add_zero] at hat
    have hstay : scanDelimiter p fuel start stop len_end = (start, len_end) := by
      cases fuel with
      | zero => rfl
      | succ fuel => rw [scanDelimiter, if_pos hat]
    rw [hstay]
    refine ⟨rfl, fun _ => rfl, fun hopen => ?_⟩
    obtain ⟨j, hj, -⟩ := hopen
    exact absurd hj (Nat.not_lt_zero j)
  | succ k ih =>
    obtain ⟨fuel, rfl⟩ : ∃ f, fuel = f + 1 := ⟨fuel - 1, by omega⟩
    have hfirst : p[len_end - 1]? ≠ some ']' := by
      have := hbefore 0 (by omega)
      rwa [Nat.add_zero] at this
    rw [scanDelimiter, if_neg hfirst]
    have hshift : ∀ j, len_end + 1 - 1 + j = len_end - 1 + (j + 1) := fun j => by omega
    have hshift' : ∀ j, stop + 1 - 1 + j = stop - 1 + (j + 1) := fun j => by omega
    have ih := @ih fuel (if p[stop - 1]? = some '<' then stop - 1 else start) (stop + 1)
      (len_end + 1) (by omega) (by omega)
      (fun j hj => by rw [hshift]; exact hbefore (j + 1) (by omega))
      (by rw [hshift]; exact hat) (by omega)
    obtain ⟨hsnd, hnone, hsome⟩ := ih
    refine ⟨by rw [hsnd]; omega, fun hall => ?_, fun hopens => ?_⟩
    · have hnow := hall 0 (by omega)
      rw [Nat.add_zero] at hnow
      rw [hnone fun j hj => by rw [hshift']; exact hall (j + 1) (by omega), if_neg hnow]
    · obtain ⟨j, hj, hopen⟩ := hopens
      by_cases hlater : ∃ j < k, p[stop - 1 + (j + 1)]? = some '<'
      · obtain ⟨i, hi, hiopen⟩ := hlater
        have := hsome ⟨i, hi, by rw [hshift']; exact hiopen⟩
        omega
      · have hnow : p[stop - 1]? = some '<' := by
          cases j with
          | zero => exact hopen
          | succ j => exact absurd ⟨j, by omega, hopen⟩ hlater
        have hstay := hnone fun i hi => by
          rw [hshift']
          exact fun hiopen => hlater ⟨i, hi, hiopen⟩
        rw [hstay, if_pos hnow]

section

variable {pre w body rest : Bytes}

/-- Behind the space the first `]` is the one after `body`. -/
theorem delimiter_behind (hbody : ']' ∉ body) :
    (∀ j < body.length, (pre ++ (w ++ ' ' :: (body ++ ']' :: rest)))[
      pre.length + w.length + 1 + j]? ≠ some ']') ∧
    (pre ++ (w ++ ' ' :: (body ++ ']' :: rest)))[
      pre.length + w.length + 1 + body.length]? = some ']' := by
  have hassoc : pre ++ (w ++ ' ' :: (body ++ ']' :: rest)) =
      (pre ++ (w ++ [' '])) ++ (body ++ ']' :: rest) := by simp
  have hat : ∀ j, (pre ++ (w ++ ' ' :: (body ++ ']' :: rest)))[
      pre.length + w.length + 1 + j]? = (body ++ ']' :: rest)[j]? := by
    intro j
    rw [hassoc, List.getElem?_append_right (by simp; omega)]
    congr 1
    simp
    omega
  refine ⟨fun j hj h => ?_, ?_⟩
  · rw [hat, List.getElem?_append_left hj] at h
    exact hbody (List.mem_of_getElem? h)
  · rw [hat, List.getElem?_append_right (by simp)]
    simp

/-- Where the search for `]` ends, and when it leaves the beginning where it is. The
first byte of the message is the first one that it looks at for a `<`. -/
theorem scanDelimiter_behind (hbody : ']' ∉ body) :
    let p := pre ++ (w ++ ' ' :: (body ++ ']' :: rest))
    let located := scanDelimiter p (body ++ ']' :: rest).length pre.length (pre.length + 1)
      (pre.length + w.length + 1)
    located.2 = pre.length + w.length + body.length + 2 ∧
      pre.length ≤ located.1 ∧
      (located.1 = pre.length ↔ ∀ j < body.length, p[pre.length + 1 + j]? ≠ some '<') := by
  intro p located
  obtain ⟨hbefore, hat⟩ := @delimiter_behind pre w body rest hbody
  have hspace : p[pre.length + w.length + 1 - 1]? ≠ some ']' := by
    rw [Nat.add_sub_cancel, List.getElem?_append_right (by omega)]
    simp
  have hturn : located = scanDelimiter p (body ++ rest).length pre.length (pre.length + 2)
      (pre.length + w.length + 2) := by
    show scanDelimiter p (body ++ ']' :: rest).length _ _ _ = _
    rw [show (body ++ ']' :: rest).length = (body ++ rest).length + 1 by simp; omega,
      scanDelimiter, if_neg hspace, Nat.add_sub_cancel, ite_self]
  have hturns := @scanDelimiter_turns p body.length (body ++ rest).length pre.length
    (pre.length + 2) (pre.length + w.length + 2) (by omega) (by omega) hbefore hat (by simp)
  rw [← hturn] at hturns
  obtain ⟨hend, hnone, hsome⟩ := hturns
  refine ⟨by omega, ?_, fun hstart j hj hopen => ?_, hnone⟩
  · by_cases hopen : ∃ j < body.length, p[pre.length + 2 - 1 + j]? = some '<'
    · have := hsome hopen
      omega
    · exact le_of_eq (hnone fun j hj h => hopen ⟨j, hj, h⟩).symm
  · have := hsome ⟨j, hj, hopen⟩
    omega

end

theorem joined_append (word body rest : Bytes) :
    joined word body ++ rest = ('<' :: word) ++ ' ' :: (body ++ ']' :: rest) := by
  simp [joined]

theorem noEarlyOpen_joined {word : Bytes} (hword : ' ' ∉ word) (pre body rest : Bytes) :
    NoEarlyOpen (joined word body) ↔
      ∀ j < body.length, (pre ++ (joined word body ++ rest))[pre.length + 1 + j]? ≠ some '<' := by
  have hat : ∀ j < body.length, (pre ++ (joined word body ++ rest))[pre.length + 1 + j]? =
      ((joined word body).tail.take body.length)[j]? := by
    intro j hj
    have hlen := length_joined word body
    rw [Nat.add_assoc, List.getElem?_append_right (by omega), Nat.add_sub_cancel_left,
      List.getElem?_append_left (by omega), List.getElem?_take_of_lt hj, List.getElem?_tail,
      Nat.add_comm 1 j]
  rw [NoEarlyOpen, bytesBehindSpace_joined hword]
  constructor
  · intro hno j hj hopen
    rw [hat j hj] at hopen
    exact hno (List.mem_of_getElem? hopen)
  · intro hno hmem
    obtain ⟨j, hj, hopen⟩ := List.getElem_of_mem hmem
    have hj' : j < body.length := by
      rw [List.length_take] at hj
      omega
    refine hno j hj' ?_
    rw [hat j hj', List.getElem?_eq_getElem hj, hopen]

/-- A message that comes next is cut at its end; it is also cut at its beginning unless
no `<` follows early. -/
theorem locate_unframed {m : Bytes} (h : Unframed m) (pre rest : Bytes) :
    (locate (pre ++ (m ++ rest)) pre.length).2 = pre.length + m.length ∧
      pre.length ≤ (locate (pre ++ (m ++ rest)) pre.length).1 ∧
      ((locate (pre ++ (m ++ rest)) pre.length).1 = pre.length ↔ NoEarlyOpen m) := by
  obtain ⟨word, body, rfl, hword, hbody⟩ := h.split
  have hspace : ' ' ∉ '<' :: word := by simp [hword]
  have hlocate : locate (pre ++ (joined word body ++ rest)) pre.length =
      scanDelimiter (pre ++ (joined word body ++ rest)) (body ++ ']' :: rest).length pre.length
        (pre.length + 1) (pre.length + ('<' :: word).length + 1) := by
    rw [joined_append, locate_word hspace (by simp)]
    rfl
  obtain ⟨hend, hle, hstart⟩ := @scanDelimiter_behind pre ('<' :: word) body rest hbody
  simp only [← joined_append, ← hlocate] at hend hle hstart
  refine ⟨?_, hle, hstart.trans (noEarlyOpen_joined hword pre body rest).symm⟩
  rw [hend, length_joined, List.length_cons]
  omega

theorem messageText_length (p : Bytes) (start : Nat) :
    messageText p p.length start = (p.take (locate p start).2).drop (locate p start).1 := by
  simp only [messageText, messageStart, messageEnd, List.take_length]

/-- Without its first byte a message is not given to `parse_syslog` any more: what is
cut there begins with a digit or is shorter. -/
theorem text_behind_open {m : Bytes} (h : Unframed m) (pre rest : Bytes) :
    messageText (pre ++ (m.tail ++ rest)) (pre ++ (m.tail ++ rest)).length pre.length ≠ m := by
  obtain ⟨word, body, rfl, hword, hbody⟩ := h.split
  have htail : (joined word body).tail ++ rest = word ++ ' ' :: (body ++ ']' :: rest) := by
    simp [joined]
  intro heq
  rw [messageText_length, htail, locate_word hword (by simp)] at heq
  simp only at heq
  generalize hmlen : (if word.all Char.isDigit = true then
    min (Nat.ofDigitChars 10 word 0) LONG_MAX else 0) = mlen at heq
  by_cases hzero : mlen = 0
  · rw [if_neg (by simpa using hzero)] at heq
    obtain ⟨hend, hle, -⟩ := @scanDelimiter_behind pre word body rest hbody
    have hlen := congrArg List.length heq
    rw [List.length_drop, List.length_take, hend, length_joined] at hlen
    omega
  · rw [if_pos hzero] at heq
    cases word with
    | nil => exact hzero hmlen.symm
    | cons c word =>
      have hdigit : c.isDigit = true := by
        by_contra hno
        rw [if_neg (by simp [hno])] at hmlen
        exact hzero hmlen.symm
      have hhead := congrArg List.head? heq
      rw [List.head?_drop, List.getElem?_take_of_lt (by omega),
        List.getElem?_append_right (by omega), Nat.sub_self] at hhead
      obtain rfl : c = '<' := Option.some.inj hhead
      exact absurd hdigit (by decide)

-- ---------------------------------------------------------------------------
-- The calls of a run
-- ---------------------------------------------------------------------------

/-- `int_` does not match a `<`, so that such a text has no length. -/
def NoLengthAtOpen (ps : SyslogParser V) : Prop :=
  ∀ text v, text.head? = some '<' → ps.parse_syslog text = some v → ps.msglen v = none

section

variable {ps : SyslogParser V} {session : Bool} {p : Bytes} {len start : Nat}

/-- The run from `start` on ends, with these calls. -/
def CallsFrom (ps : SyslogParser V) (session : Bool) (p : Bytes) (len start : Nat)
    (texts : List Bytes) : Prop :=
  ∃ fuel, parseCalls ps session p len fuel start = some texts

theorem callsFrom_last (hcomplete : ¬ Incomplete p len start session)
    (hlast : ¬ nextStart ps p len start < len) :
    CallsFrom ps session p len start [messageText p len start] := by
  refine ⟨1, ?_⟩
  rw [parseCalls, if_neg hcomplete, if_neg hlast]

theorem callsFrom_cons (hcomplete : ¬ Incomplete p len start session)
    (hlt : nextStart ps p len start < len) {later : List Bytes} :
    CallsFrom ps session p len start (messageText p len start :: later) ↔
      CallsFrom ps session p len (nextStart ps p len start) later := by
  constructor
  · rintro ⟨fuel, hfuel⟩
    cases fuel with
    | zero => exact absurd hfuel (by simp [parseCalls])
    | succ fuel =>
      rw [parseCalls, if_neg hcomplete, if_pos hlt] at hfuel
      obtain ⟨later', hlater, heq⟩ := Option.map_eq_some_iff.mp hfuel
      exact ⟨fuel, (List.cons.inj heq).2 ▸ hlater⟩
  · rintro ⟨fuel, hlater⟩
    refine ⟨fuel + 1, ?_⟩
    rw [parseCalls, if_neg hcomplete, if_pos hlt, hlater, Option.map_some]

/-- A first call on another text. -/
theorem not_callsFrom {text : Bytes} (hne : messageText p len start ≠ text) (later : List Bytes) :
    ¬ CallsFrom ps session p len start (text :: later) := by
  rintro ⟨fuel, hfuel⟩
  cases fuel with
  | zero => exact absurd hfuel (by simp [parseCalls])
  | succ fuel =>
    rw [parseCalls] at hfuel
    split at hfuel
    · exact absurd hfuel (by simp)
    · split at hfuel
      · obtain ⟨_, -, heq⟩ := Option.map_eq_some_iff.mp hfuel
        exact hne (List.cons.inj heq).1
      · exact hne (List.cons.inj (Option.some.inj hfuel)).1

end

/-- No message is cut, and the only one that can be parsed is the last. -/
structure OnlyLastParsed (ps : SyslogParser V) (messages : List Bytes) : Prop where
  uncut : ∀ m ∈ messages, NoEarlyOpen m
  unparsed : ∀ m ∈ messages.dropLast, ps.parse_syslog m = none

section

variable {ps : SyslogParser V} {session : Bool} {pre m rest : Bytes}

theorem complete_unframed (h : Unframed m) :
    ¬ Incomplete (pre ++ (m ++ rest)) (pre ++ (m ++ rest)).length pre.length session := by
  obtain ⟨hend, -, -⟩ := locate_unframed h pre rest
  obtain ⟨body, rfl, -⟩ := h.closes
  have hlast : (pre ++ (body ++ [']'] ++ rest))[pre.length + (body ++ [']']).length - 1]? =
      some ']' := by
    rw [List.getElem?_append_right (by simp), List.getElem?_append_left (by simp),
      List.getElem?_append_right (by simp)]
    simp
  unfold Incomplete messageEnd
  rw [List.take_length, hend]
  rintro ⟨hover | ⟨-, hno⟩, -⟩
  · simp at hover
  · exact hno hlast

theorem text_unframed (h : Unframed m) :
    messageText (pre ++ (m ++ rest)) (pre ++ (m ++ rest)).length pre.length = m ↔
      NoEarlyOpen m := by
  obtain ⟨hend, hle, hstart⟩ := locate_unframed h pre rest
  rw [messageText_length, hend, ← hstart]
  constructor
  · intro heq
    have hlen := congrArg List.length heq
    have hpos := List.length_pos_of_mem h.space
    rw [List.length_drop, List.length_take, List.length_append, List.length_append] at hlen
    omega
  · intro heq
    rw [heq, List.take_length_add_append, List.drop_left, List.take_left]

/-- `start` after a message that was not cut. -/
theorem nextStart_unframed (hps : NoLengthAtOpen ps) (h : Unframed m) (hno : NoEarlyOpen m) :
    nextStart ps (pre ++ (m ++ rest)) (pre ++ (m ++ rest)).length pre.length =
      if ps.parse_syslog m = none then (pre ++ m).length else (pre ++ m).length + 1 := by
  obtain ⟨hend, -, -⟩ := locate_unframed h pre rest
  rw [nextStart, parsedIn, (text_unframed h).mpr hno, messageEnd, List.take_length, hend,
    show (pre ++ m).length = pre.length + m.length from List.length_append]
  cases hparse : ps.parse_syslog m with
  | none =>
    rw [if_pos rfl]
    rfl
  | some v =>
    rw [Option.map_some, hps m v h.opens hparse, if_neg (by simp)]
    show (if _ then _ else _) = _
    rw [Option.getD_none, if_pos rfl]

end

/-- The calls from some message on. -/
theorem callsFrom_messages {ps : SyslogParser V} (hps : NoLengthAtOpen ps) {session : Bool}
    {messages : List Bytes} (hne : messages ≠ []) (h : ∀ m ∈ messages, Unframed m) (pre : Bytes) :
    CallsFrom ps session (pre ++ messages.flatten) (pre ++ messages.flatten).length pre.length
      messages ↔ OnlyLastParsed ps messages := by
  induction messages generalizing pre with
  | nil => exact absurd rfl hne
  | cons m rest ih =>
    have hm := h m List.mem_cons_self
    have hrest : ∀ m ∈ rest, Unframed m := fun m' hm' => h m' (List.mem_cons_of_mem m hm')
    rw [List.flatten_cons]
    by_cases hno : NoEarlyOpen m
    swap
    · -- the message is cut at a `<` of its own
      refine iff_of_false (not_callsFrom (fun heq => hno ((text_unframed hm).mp heq)) rest) ?_
      exact fun hall => hno (hall.uncut m List.mem_cons_self)
    have htext := (@text_unframed pre m rest.flatten hm).mpr hno
    have hnext := @nextStart_unframed V ps pre m rest.flatten hps hm hno
    have hcomplete := @complete_unframed session pre m rest.flatten hm
    cases rest with
    | nil =>
      -- the last message: whatever becomes of it, the buffer ends here
      have hend : ¬ nextStart ps (pre ++ (m ++ [].flatten)) (pre ++ (m ++ [].flatten)).length
          pre.length < (pre ++ (m ++ [].flatten)).length := by
        rw [hnext]
        simp
        split <;> omega
      have hlast := callsFrom_last hcomplete hend
      rw [htext] at hlast
      refine iff_of_true hlast ⟨fun m' hm' => ?_, fun m' hm' => ?_⟩
      · rw [List.mem_singleton.mp hm']
        exact hno
      · exact absurd hm' (by simp)
    | cons m' rest =>
      have hm' := hrest m' List.mem_cons_self
      -- there is a next message, which begins with `<`
      obtain ⟨tail, rfl⟩ : ∃ tail, m' = '<' :: tail := by
        obtain ⟨word, body, rfl, -⟩ := hm'.split
        exact ⟨_, rfl⟩
      have htail : 0 < tail.length := by
        rcases List.mem_cons.mp hm'.space with heq | hmem
        · exact absurd heq (by decide)
        · exact List.length_pos_of_mem hmem
      have hlt : nextStart ps (pre ++ (m ++ (('<' :: tail) :: rest).flatten))
          (pre ++ (m ++ (('<' :: tail) :: rest).flatten)).length pre.length <
            (pre ++ (m ++ (('<' :: tail) :: rest).flatten)).length := by
        rw [hnext]
        simp
        split <;> omega
      have hstep := @callsFrom_cons V ps session _ _ _ hcomplete hlt (('<' :: tail) :: rest)
      rw [htext, hnext] at hstep
      rw [hstep]
      -- if this one is not parsed, the next call begins there
      have hdrop : (m :: ('<' :: tail) :: rest).dropLast = m :: (('<' :: tail) :: rest).dropLast :=
        List.dropLast_cons_of_ne_nil (by simp)
      by_cases hparse : ps.parse_syslog m = none
      · rw [if_pos hparse, ← List.append_assoc, ih (by simp) hrest (pre ++ m)]
        constructor
        · rintro ⟨huncut, hunparsed⟩
          refine ⟨List.forall_mem_cons.mpr ⟨hno, huncut⟩, ?_⟩
          rw [hdrop]
          exact List.forall_mem_cons.mpr ⟨hparse, hunparsed⟩
        · rintro ⟨huncut, hunparsed⟩
          rw [hdrop] at hunparsed
          exact ⟨(List.forall_mem_cons.mp huncut).2, (List.forall_mem_cons.mp hunparsed).2⟩
      · -- the next message has lost its `<`
        refine iff_of_false ?_ fun hall => hparse (hall.unparsed m ?_)
        · have hsplit : pre ++ (m ++ (('<' :: tail) :: rest).flatten) =
              (pre ++ m ++ ['<']) ++ (('<' :: tail).tail ++ rest.flatten) := by
            simp only [List.flatten_cons, List.append_assoc, List.cons_append, List.nil_append,
              List.tail_cons]
          have hlength : (pre ++ m).length + 1 = (pre ++ m ++ ['<']).length := by
            rw [show (pre ++ m ++ ['<']).length = (pre ++ m).length + 1 from List.length_append]
          rw [if_neg hparse, hsplit, hlength]
          exact not_callsFrom (text_behind_open hm' _ _) rest
        · rw [hdrop]
          exact List.mem_cons_self

/-- `parse_syslog` is given exactly the messages if and only if no message has a `<`
early behind its first byte and none but the last is parsed. -/
theorem handsExactly_iff (ps : SyslogParser V) (hps : NoLengthAtOpen ps) (sess_buf : Option Bytes)
    (hsess : sess_buf.getD [] = []) (messages : List Bytes) (hne : messages ≠ [])
    (h : ∀ m ∈ messages, Unframed m) :
    HandsExactly ps sess_buf messages ↔
      (∀ m ∈ messages, NoEarlyOpen m) ∧ ∀ m ∈ messages.dropLast, ps.parse_syslog m = none := by
  have hlast : messages.flatten.rdropWhile (· == NUL) = messages.flatten := by
    rw [List.rdropWhile_eq_self_iff]
    intro hflat hnul
    obtain ⟨before, m, rfl⟩ := (List.eq_nil_or_concat messages).resolve_left hne
    obtain ⟨body, hbody, -⟩ := (h m (by simp)).closes
    have hend : (before.concat m).flatten = (before.flatten ++ body) ++ [']'] := by
      simp [hbody]
    rw [List.getLast_congr _ (by simp) hend, List.getLast_concat] at hnul
    exact absurd hnul (by decide)
  have hreceive : receive messages.flatten sess_buf =
      (messages.flatten, messages.flatten.length) := by
    cases sess_buf with
    | none => simp [receive, hlast]
    | some kept =>
      obtain rfl : kept = [] := hsess
      simp [receive, hlast]
  have hcalls := @callsFrom_messages V ps hps sess_buf.isSome messages hne h []
  rw [HandsExactly, hreceive]
  exact hcalls.trans ⟨fun hall => ⟨hall.uncut, hall.unparsed⟩, fun ⟨huncut, hunparsed⟩ =>
    ⟨huncut, hunparsed⟩⟩

def sampleUnframed : Bytes := "<14>1 2016-12-06T11:38:19.818Z h RT_FLOW - C [j a=\"1\"]".toList

/-- A message without a timestamp. -/
def sampleUntimed : Bytes := "<14>1 h RT_FLOW - C [j a=\"<\"]".toList

theorem unframed_samples : ∀ m ∈ [sampleUntimed, sampleUnframed], Unframed m := by
  intro m hm
  rcases List.mem_cons.mp hm with rfl | hm
  · exact ⟨by decide, by decide, sampleUntimed.dropLast, by decide, by decide⟩
  · obtain rfl := List.mem_singleton.mp hm
    exact ⟨by decide, by decide, sampleUnframed.dropLast, by decide, by decide⟩

/-- A grammar that wants a year behind the priority and the version. -/
def timedParser : SyslogParser Unit where
  parse_syslog text := if "<14>1 2".toList <+: text then some () else none
  msglen _ := none
  postParsing v := v

/-- The first of two messages is not parsed. -/
theorem handsExactly_sample : HandsExactly timedParser none [sampleUntimed, sampleUnframed] := by
  refine (handsExactly_iff timedParser (fun _ _ _ _ => rfl) none rfl _ (by simp)
    unframed_samples).mpr ⟨?_, ?_⟩
  · intro m hm
    rcases List.mem_cons.mp hm with rfl | hm
    · show '<' ∉ sampleUntimed.tail.take (bytesBehindSpace sampleUntimed)
      decide +kernel
    · obtain rfl := List.mem_singleton.mp hm
      show '<' ∉ sampleUnframed.tail.take (bytesBehindSpace sampleUnframed)
      decide +kernel
  · intro m hm
    obtain rfl := List.mem_singleton.mp hm
    decide +kernel

/-- The second of two messages arrives without its `<`, and a message with a `<` in a
value is cut off there. -/
theorem not_handsExactly :
    ¬ HandsExactly plainParser none [sampleUnframed, sampleUnframed] ∧
      ¬ HandsExactly plainParser none ["<14>1 h C [a=\"<\" b=\"12345\"]".toList] := by
  constructor
  · intro h
    have hfirst : messageText (sampleUnframed ++ sampleUnframed) 108 0 = sampleUnframed := by
      decide +kernel
    have hrun : CallsFrom plainParser false (sampleUnframed ++ sampleUnframed) 108 0
        [messageText (sampleUnframed ++ sampleUnframed) 108 0, sampleUnframed] := by
      rw [hfirst]
      exact h
    have hlater := (callsFrom_cons (by decide +kernel) (by decide +kernel)).mp hrun
    exact not_callsFrom (by decide +kernel) [] hlater
  · exact not_callsFrom (by decide +kernel) []

end TfAnalytics.Collector
