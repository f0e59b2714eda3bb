import Mathlib.Data.List.DropRight
import Mathlib.Data.List.Infix
import Mathlib.Data.Nat.Digits.Defs

/-!
# Collector — structured syslog over TCP

`ProcessStructuredSyslog` (structured_syslog_server.cc) is called with each
buffer a TCP session receives. It puts what the session kept in `sess_buf` in
front, cuts messages off the result one after the other, and keeps a message
whose end has not arrived yet in `sess_buf` again. A message may be preceded by
its length in decimal and a space; without a length its end is the next `]`.

A buffer is a list of characters, one for each byte. `none` stands for a read
outside the buffer. The indices are those of one receive buffer, so `int` and
`size_t` hold them exactly.

* `syslogLoop_frame` / `syslogLoop_unfinished`: one turn of the loop on a complete
  and on an incomplete frame;
* `process_segment`: one call on any piece of a stream of frames;
* `segmentation_independent`: any number of calls, however the stream is cut.
-/

namespace TfAnalytics.Collector

abbrev Bytes := List Char

-- ---------------------------------------------------------------------------
-- Finding the end of a message
-- ---------------------------------------------------------------------------

/-- `while (*(p + i - 1) != c && i < len) ++i`, for at most `len - i` turns. -/
def scanTo (c : Char) (p : Bytes) : Nat → Nat → Nat
  | 0, i => i
  | k + 1, i => if p[i - 1]? = some c then i else scanTo c p k (i + 1)

/-- The loop that looks for `]` when no length is given. It moves `start` to
the last `<` that `stop` has passed. -/
def scanDelimiter (p : Bytes) : Nat → Nat → Nat → Nat → Nat × Nat
  | 0, start, _, len_end => (start, len_end)
  | k + 1, start, stop, len_end =>
    if p[len_end - 1]? = some ']' then (start, len_end)
    else
      scanDelimiter p k (if p[stop - 1]? = some '<' then stop - 1 else start) (stop + 1)
        (len_end + 1)

/-- `LONG_MAX`, where `strtol` stops. -/
def LONG_MAX : Nat := 2 ^ 63 - 1

/-- The prepended message length, 0 if there is none. -/
def prependedLength (p : Bytes) (start len_end : Nat) : Nat :=
  let word := (p.take (len_end - 1)).drop start
  if word.all Char.isDigit then min (Nat.ofDigitChars 10 word 0) LONG_MAX else 0

/-- The `start` and `end` of the message that begins at `start`. -/
def locate (p : Bytes) (start : Nat) : Nat × Nat :=
  let len_end := scanTo ' ' p (p.length - (start + 1)) (start + 1)
  if len_end ≠ p.length then
    let mlen := prependedLength p start len_end
    if mlen ≠ 0 then (start, len_end + mlen)
    else scanDelimiter p (p.length - len_end) start (start + 1) len_end
  else (start, len_end)

-- ---------------------------------------------------------------------------
-- The loop
-- ---------------------------------------------------------------------------

/-- What a call did: the calls of `StructuredSyslogPostParsing`, with the parsed
fields and the bytes of the message, the session buffer afterwards and the
value returned. -/
structure Processed (V : Type) where
  handed : List (V × Bytes)
  sess_buf : Bytes
  r : Bool
deriving DecidableEq

/-- `SyslogParser::parse_syslog` and the field `msglen` of its result.
`postParsing` is what happens to the fields before they are handed on. -/
structure SyslogParser (V : Type) where
  parse_syslog : Bytes → Option V
  msglen : V → Option Int
  postParsing : V → V

/-- The text `std::stringstream` gives for an `int`. -/
def intText (n : Int) : Bytes :=
  if n < 0 then '-' :: Nat.toDigits 10 n.natAbs else Nat.toDigits 10 n.natAbs

variable {V : Type}

/-- The `do` loop. With a session (`sess_buf != NULL`) it stops at a message
that has not fully arrived. -/
def syslogLoop (ps : SyslogParser V) (session : Bool) (p : Bytes) :
    Nat → Nat → List (V × Bytes) → Option (Processed V)
  | 0, _, _ => none
  | fuel + 1, start₀, handed =>
    let len := p.length
    let start := (locate p start₀).1
    let stop := (locate p start₀).2
    if (len < stop ∨ (stop = len ∧ p[stop - 1]? ≠ some ']')) ∧ session = true then
      if len - start < 5120 then some ⟨handed, p.drop start, true⟩
      else some ⟨handed, [], false⟩
    else if len < stop then none
    else
      match ps.parse_syslog ((p.take stop).drop start) with
      | none =>
        -- start = end
        if stop < len then syslogLoop ps session p fuel stop handed
        else some ⟨handed, [], false⟩
      | some v =>
        let message_len : Int := (ps.msglen v).getD len
        let begin :=
          if message_len ≠ len then start + (intText ((ps.msglen v).getD 0)).length + 1 else start
        if stop < begin then none
        else
          let handed := handed ++ [(ps.postParsing v, (p.take stop).drop begin)]
          let next : Int := if message_len = len then stop + 1 else begin + message_len
          -- a negative sum is a size_t beyond len
          if 0 ≤ next ∧ next < len then syslogLoop ps session p fuel next.toNat handed
          else some ⟨handed, [], true⟩

/-- One received buffer. `sess_buf` is absent over UDP. Trailing NULs are
dropped; a buffer of NULs only is read beyond its beginning. -/
def ProcessStructuredSyslog (ps : SyslogParser V) (data : Bytes) (sess_buf : Option Bytes) :
    Option (Processed V) :=
  let data := data.rdropWhile (· == Char.ofNat 0)
  if data = [] then none
  else
    let full_log := sess_buf.getD [] ++ data
    syslogLoop ps sess_buf.isSome full_log (full_log.length + 1) 0 []

/-- The buffers of one TCP session, in the order received: what was handed on
and what the session buffer holds at the end. -/
def processSession (ps : SyslogParser V) : List Bytes → Bytes → Option (List (V × Bytes) × Bytes)
  | [], sess_buf => some ([], sess_buf)
  | data :: rest, sess_buf => do
    let out ← ProcessStructuredSyslog ps data (some sess_buf)
    let (handed, last) ← processSession ps rest out.sess_buf
    return (out.handed ++ handed, last)

-- ---------------------------------------------------------------------------
-- Octet-counted frames
-- ---------------------------------------------------------------------------

/-- A message that is sent with its length in front. -/
structure Frame where
  message : Bytes
  noNul : Char.ofNat 0 ∉ message
  ends : message.getLast? = some ']'
  short : (Nat.toDigits 10 message.length).length + 1 + message.length < 5120

namespace Frame

def digits (f : Frame) : Bytes := Nat.toDigits 10 f.message.length

def text (f : Frame) : Bytes := f.digits ++ ' ' :: f.message

theorem text_length (f : Frame) :
    f.text.length = f.digits.length + 1 + f.message.length := by
  simp [text]
  omega

theorem message_length_pos (f : Frame) : 0 < f.message.length := by
  have h := f.ends
  cases hm : f.message with
  | nil =>
    rw [hm] at h
    simp at h
  | cons c cs => simp

theorem digits_length_pos (f : Frame) : 0 < f.digits.length :=
  Nat.length_toDigits_pos

theorem text_length_lt (f : Frame) : f.text.length < 5120 := by
  rw [text_length]
  exact f.short

theorem text_ne_nil (f : Frame) : f.text ≠ [] := by
  simp [text]

theorem isDigit_of_mem {f : Frame} {c : Char} (h : c ∈ f.digits) : c.isDigit = true :=
  Nat.isDigit_of_mem_toDigits (by decide) (by decide) h

theorem digits_ne {f : Frame} {c d : Char} (h : c ∈ f.digits) (hd : d.isDigit = false) :
    c ≠ d := by
  rintro rfl
  rw [isDigit_of_mem h] at hd
  cases hd

/-- A frame ends with the delimiter. -/
theorem text_getLast (f : Frame) : f.text.getLast? = some ']' := by
  rw [text, List.getLast?_append, List.getLast?_cons, f.ends]
  rfl

theorem noNul_text (f : Frame) : Char.ofNat 0 ∉ f.text := by
  intro h
  rcases List.mem_append.mp h with h | h
  · exact digits_ne h (by decide) rfl
  · rcases List.mem_cons.mp h with h | h
    · exact absurd h (by decide)
    · exact f.noNul h

/-- What reading the length prefix gives. -/
theorem prependedLength_text (f : Frame) (pre rest : Bytes) :
    prependedLength (pre ++ (f.digits ++ ' ' :: rest)) pre.length
      (pre.length + f.digits.length + 1) = f.message.length := by
  have hword : ((pre ++ (f.digits ++ ' ' :: rest)).take
      (pre.length + f.digits.length + 1 - 1)).drop pre.length = f.digits := by
    rw [Nat.add_sub_cancel, List.take_length_add_append, List.drop_left, List.take_left]
  have hall : f.digits.all Char.isDigit = true := by
    rw [List.all_eq_true]
    exact fun c => isDigit_of_mem
  have hlt : f.message.length ≤ LONG_MAX := by
    have hs := f.short
    unfold LONG_MAX
    omega
  unfold prependedLength
  rw [hword]
  simp only [hall, if_true]
  rw [digits, Nat.ofDigitChars_ten_toDigits]
  exact Nat.min_eq_left hlt

end Frame

/-- The concatenated stream. -/
def streamOf (frames : List Frame) : Bytes := frames.flatMap Frame.text

@[simp] theorem streamOf_nil : streamOf [] = [] := rfl

@[simp] theorem streamOf_cons (f : Frame) (fs : List Frame) :
    streamOf (f :: fs) = f.text ++ streamOf fs := by
  simp [streamOf]

theorem streamOf_append (fs gs : List Frame) :
    streamOf (fs ++ gs) = streamOf fs ++ streamOf gs := by
  simp [streamOf]

theorem length_le_streamOf (fs : List Frame) : fs.length ≤ (streamOf fs).length := by
  induction fs with
  | nil => simp
  | cons f fs ih =>
    have := List.length_pos_of_ne_nil f.text_ne_nil
    simp
    omega

theorem eq_nil_of_streamOf {fs : List Frame} (h : streamOf fs = []) : fs = [] := by
  have := length_le_streamOf fs
  rw [h] at this
  exact List.length_eq_zero_iff.mp (Nat.le_zero.mp this)

theorem noNul_streamOf (fs : List Frame) : Char.ofNat 0 ∉ streamOf fs := by
  intro h
  obtain ⟨f, -, hf⟩ := List.mem_flatMap.mp h
  exact f.noNul_text hf

-- ---------------------------------------------------------------------------
-- One turn of the loop
-- ---------------------------------------------------------------------------

theorem ofDigitChars_lt {digits : Bytes} (h : ∀ c ∈ digits, c.isDigit = true) :
    Nat.ofDigitChars 10 digits 0 < 10 ^ digits.length := by
  induction digits using List.reverseRecOn with
  | nil => decide
  | append_singleton digits c ih =>
    have hc := h c (by simp)
    have hlt := ih fun d hd => h d (List.mem_append_left _ hd)
    simp only [Char.isDigit, Bool.and_eq_true, decide_eq_true_eq] at hc
    have h0 : '0'.toNat ≤ c.toNat := hc.1
    have h9 : c.toNat ≤ '9'.toNat := hc.2
    have hzero : '0'.toNat = 48 := rfl
    have hnine : '9'.toNat = 57 := rfl
    rw [Nat.ofDigitChars_append, Nat.ofDigitChars_cons, Nat.ofDigitChars_nil, List.length_append,
      List.length_singleton, pow_succ]
    omega

/-- The scan passes over characters other than the one it looks for. -/
theorem scanTo_skip (c : Char) (pre l post : Bytes) (hl : c ∉ l) (k : Nat) :
    scanTo c (pre ++ (l ++ post)) (l.length + k) (pre.length + 1) =
      scanTo c (pre ++ (l ++ post)) k (pre.length + l.length + 1) := by
  induction l generalizing pre with
  | nil => simp
  | cons d l ih =>
    have hd : (pre ++ (d :: l ++ post))[pre.length + 1 - 1]? = some d := by simp
    have hne : (some d : Option Char) ≠ some c := by
      intro h
      injection h with h
      exact hl (h ▸ List.mem_cons_self)
    have hassoc : pre ++ (d :: l ++ post) = (pre ++ [d]) ++ (l ++ post) := by simp
    have ih := ih (pre ++ [d]) (fun h => hl (List.mem_cons_of_mem d h))
    rw [List.length_append, List.length_singleton] at ih
    rw [List.length_cons, Nat.add_right_comm, scanTo, hd, if_neg hne, hassoc, ih]
    congr 1
    omega

/-- With the space in the buffer and something after it, the prefix is read. -/
theorem locate_frame (f : Frame) (pre rest : Bytes) (hrest : rest ≠ []) :
    locate (pre ++ (f.digits ++ ' ' :: rest)) pre.length =
      (pre.length, pre.length + f.text.length) := by
  have hpos := f.message_length_pos
  have hrest : 0 < rest.length := List.length_pos_of_ne_nil hrest
  have hdig := f.digits_length_pos
  have hscan : scanTo ' ' (pre ++ (f.digits ++ ' ' :: rest))
      ((pre ++ (f.digits ++ ' ' :: rest)).length - (pre.length + 1)) (pre.length + 1) =
      pre.length + f.digits.length + 1 := by
    have hk : (pre ++ (f.digits ++ ' ' :: rest)).length - (pre.length + 1) =
        f.digits.length + rest.length := by
      simp
      omega
    have hspace : (pre ++ (f.digits ++ ' ' :: rest))[pre.length + f.digits.length + 1 - 1]? =
        some ' ' := by
      rw [Nat.add_sub_cancel, List.getElem?_append_right (by omega)]
      simp
    rw [hk, scanTo_skip ' ' pre f.digits _ (fun h => f.digits_ne h (by decide) rfl)]
    obtain ⟨k, hk⟩ : ∃ k, rest.length = k + 1 := ⟨rest.length - 1, by omega⟩
    rw [hk, scanTo, if_pos hspace]
  have hlen : pre.length + f.digits.length + 1 ≠ (pre ++ (f.digits ++ ' ' :: rest)).length := by
    simp
    omega
  unfold locate
  simp only [hscan, f.prependedLength_text, if_pos hlen, if_pos (Nat.pos_iff_ne_zero.mp hpos)]
  rw [f.text_length]
  congr 1
  omega

/-- Without a space before the last byte the buffer is the message. -/
theorem locate_spaceless (pre l : Bytes) (c : Char) (hl : ' ' ∉ l) :
    locate (pre ++ (l ++ [c])) pre.length = (pre.length, (pre ++ (l ++ [c])).length) := by
  have hscan : scanTo ' ' (pre ++ (l ++ [c])) ((pre ++ (l ++ [c])).length - (pre.length + 1))
      (pre.length + 1) = (pre ++ (l ++ [c])).length := by
    have hk : (pre ++ (l ++ [c])).length - (pre.length + 1) = l.length + 0 := by
      simp
      omega
    rw [hk, scanTo_skip ' ' pre l [c] hl, scanTo]
    simp
    omega
  unfold locate
  simp only [hscan]
  simp

/-- A buffer that ends within the length or right after the space. -/
theorem locate_short (f : Frame) (pre part : Bytes) (hpart : part <+: f.digits ++ [' '])
    (hne : part ≠ []) :
    locate (pre ++ part) pre.length = (pre.length, (pre ++ part).length) := by
  obtain ⟨l, c, rfl⟩ : ∃ l c, part = l ++ [c] :=
    ⟨part.dropLast, part.getLast hne, (List.dropLast_append_getLast hne).symm⟩
  have hl : l <+: f.digits := by
    refine List.prefix_of_prefix_length_le ((List.prefix_append l [c]).trans hpart)
      (List.prefix_append _ _) ?_
    have := hpart.length_le
    simp at this
    omega
  exact locate_spaceless pre l c fun h => f.digits_ne (hl.subset h) (by decide) rfl

/-- What a frame makes the collector hand on. -/
def handedFor (ps : SyslogParser V) (f : Frame) : Option (V × Bytes) :=
  (ps.parse_syslog f.text).map fun v => (ps.postParsing v, f.message)

/-- `parse_syslog` accepts the frame and returns its length prefix. -/
def Accepts (ps : SyslogParser V) (f : Frame) : Prop :=
  ∃ v, ps.parse_syslog f.text = some v ∧ ps.msglen v = some (f.message.length : Int)

/-- An incomplete frame at the end of the buffer is kept. -/
theorem syslogLoop_unfinished (ps : SyslogParser V) (f : Frame) (pre part : Bytes)
    (hpart : part <+: f.text) (hlt : part.length < f.text.length) (hne : part ≠ [])
    (fuel : Nat) (handed : List (V × Bytes)) :
    syslogLoop ps true (pre ++ part) (fuel + 1) pre.length handed =
      some ⟨handed, part, true⟩ := by
  have hkeep : (pre ++ part).length - pre.length < 5120 := by
    have := f.text_length_lt
    simp
    omega
  by_cases hshort : part.length ≤ f.digits.length + 1
  · -- the length itself is incomplete: the last byte is a digit or the space
    have hpre : part <+: f.digits ++ [' '] := by
      refine List.prefix_of_prefix_length_le hpart ?_ (by simpa using hshort)
      exact ⟨f.message, by simp [Frame.text]⟩
    have hlast : (pre ++ part)[(pre ++ part).length - 1]? ≠ some ']' := by
      rw [← List.getLast?_eq_getElem?, List.getLast?_append, List.getLast?_eq_some_getLast hne]
      intro h
      injection h with h
      have hmem := hpre.subset (h ▸ List.getLast_mem hne)
      rcases List.mem_append.mp hmem with hd | hs
      · exact f.digits_ne hd (by decide) rfl
      · exact absurd (List.mem_singleton.mp hs) (by decide)
    rw [syslogLoop, locate_short f pre part hpre hne]
    simp only [hlast, hkeep, ne_eq, not_false_eq_true, and_self, or_true, if_true,
      List.drop_left]
  · obtain ⟨rest, hrest⟩ : f.digits ++ [' '] <+: part := by
      refine List.prefix_of_prefix_length_le ⟨f.message, by simp [Frame.text]⟩ hpart ?_
      simp
      omega
    have hsplit : part = f.digits ++ ' ' :: rest := by simp [← hrest]
    have hrest_ne : rest ≠ [] := by
      rintro rfl
      simp [← hrest] at hshort
    have hover : (pre ++ part).length < pre.length + f.text.length := by
      simp
      omega
    rw [syslogLoop, hsplit, locate_frame f pre rest hrest_ne, ← hsplit]
    simp only [hover, hkeep, true_or, and_self, if_true, List.drop_left]

/-- A complete frame is handed on and the loop goes on behind it. -/
theorem syslogLoop_frame (ps : SyslogParser V) (f : Frame) (hf : Accepts ps f)
    (pre rest : Bytes) (fuel : Nat) (handed : List (V × Bytes)) :
    syslogLoop ps true (pre ++ (f.text ++ rest)) (fuel + 1) pre.length handed =
      let handed := handed ++ (handedFor ps f).toList
      if rest = [] then some ⟨handed, [], true⟩
      else syslogLoop ps true (pre ++ (f.text ++ rest)) fuel (pre ++ f.text).length handed := by
  obtain ⟨v, hv, hlen⟩ := hf
  have hmsg := f.message_length_pos
  have hdig := f.digits_length_pos
  have htl := f.text_length
  -- the frame is found from its length prefix to its end
  have hloc : locate (pre ++ (f.text ++ rest)) pre.length =
      (pre.length, pre.length + f.text.length) := by
    have hne : f.message ++ rest ≠ [] := by
      intro h
      rw [List.append_eq_nil_iff] at h
      rw [h.1] at hmsg
      cases hmsg
    have := locate_frame f pre (f.message ++ rest) hne
    rwa [show f.digits ++ ' ' :: (f.message ++ rest) = f.text ++ rest by simp [Frame.text]]
      at this
  have htotal : (pre ++ (f.text ++ rest)).length =
      pre.length + f.text.length + rest.length := by
    simp
    omega
  have hlast : (pre ++ (f.text ++ rest))[pre.length + f.text.length - 1]? = some ']' := by
    rw [List.getElem?_append_right (by omega), List.getElem?_append_left (by omega),
      show pre.length + f.text.length - 1 - pre.length = f.text.length - 1 by omega,
      ← List.getLast?_eq_getElem?]
    exact f.text_getLast
  -- it is there as a whole, so the loop does not wait for more
  have hwait : ¬((pre.length + f.text.length + rest.length < pre.length + f.text.length ∨
      (pre.length + f.text.length = pre.length + f.text.length + rest.length ∧
        (pre ++ (f.text ++ rest))[pre.length + f.text.length - 1]? ≠ some ']')) ∧
      True) := by
    rintro ⟨h | ⟨-, h⟩, -⟩
    · omega
    · exact h hlast
  have htake : ((pre ++ (f.text ++ rest)).take (pre.length + f.text.length)).drop pre.length =
      f.text := by
    rw [List.take_length_add_append, List.drop_left, List.take_left]
  -- the length prefix is never the length of the whole buffer, so it is skipped
  have hmlen : (f.message.length : Int) ≠ (pre.length + f.text.length + rest.length : Nat) := by
    omega
  have hintText : (intText (f.message.length : Int)).length = f.digits.length := by
    have hnn : ¬(f.message.length : Int) < 0 := by omega
    rw [intText, if_neg hnn]
    rfl
  -- what is handed on is the message behind the prefix
  have hmessage : ((pre ++ (f.text ++ rest)).take (pre.length + f.text.length)).drop
      (pre.length + f.digits.length + 1) = f.message := by
    rw [Nat.add_assoc, ← List.drop_drop, htake, Frame.text, ← List.drop_drop, List.drop_left]
    rfl
  have hstop : ¬pre.length + f.text.length + rest.length < pre.length + f.text.length := by
    omega
  have hbegin : ¬pre.length + f.text.length < pre.length + f.digits.length + 1 := by
    omega
  rw [syslogLoop, hloc]
  simp only [htotal]
  rw [if_neg hwait, if_neg hstop]
  simp only [htake, hv, hlen, Option.getD_some, hintText, if_pos hmlen, if_neg hmlen,
    if_neg hbegin, hmessage, handedFor, Option.map_some, Option.toList_some]
  -- the next message begins behind this one
  have hnext : (((pre.length + f.digits.length + 1 : Nat) : Int) + (f.message.length : Int)) =
      ((pre ++ f.text).length : Nat) := by
    simp [htl]
    omega
  rw [hnext]
  by_cases hrest : rest = []
  · rw [if_neg (by simp [hrest]), if_pos hrest]
  · have : 0 < rest.length := List.length_pos_of_ne_nil hrest
    rw [if_pos (by simp; omega), if_neg hrest, Int.toNat_natCast]

-- ---------------------------------------------------------------------------
-- One call
-- ---------------------------------------------------------------------------

/-- What is kept of a stream: nothing, or a proper part of its first frame. -/
def Unfinished (kept : Bytes) (frames : List Frame) : Prop :=
  kept = [] ∨ ∃ f fs, frames = f :: fs ∧ kept <+: f.text ∧ kept.length < f.text.length

/-- A stream that is kept as a whole is empty. -/
theorem Unfinished.eq_nil {kept : Bytes} {frames : List Frame} (h : Unfinished kept frames)
    (hall : kept = streamOf frames) : frames = [] := by
  rcases h with rfl | ⟨f, fs, rfl, -, hlt⟩
  · exact eq_nil_of_streamOf hall.symm
  · rw [hall, streamOf_cons, List.length_append] at hlt
    omega

/-- Any initial part of a stream is some complete frames and an unfinished one. -/
theorem streamOf_split (frames : List Frame) (x : Bytes) (hx : x <+: streamOf frames) :
    ∃ done rest kept, frames = done ++ rest ∧ x = streamOf done ++ kept ∧
      Unfinished kept rest := by
  induction frames generalizing x with
  | nil =>
    rw [streamOf_nil, List.prefix_nil] at hx
    exact ⟨[], [], [], rfl, by simp [hx], .inl rfl⟩
  | cons f fs ih =>
    rw [streamOf_cons] at hx
    rcases Nat.lt_or_ge x.length f.text.length with hlt | hge
    · have hpre : x <+: f.text :=
        List.prefix_of_prefix_length_le hx (List.prefix_append _ _) hlt.le
      exact ⟨[], f :: fs, x, rfl, rfl, .inr ⟨f, fs, rfl, hpre, hlt⟩⟩
    · obtain ⟨y, rfl⟩ : f.text <+: x :=
        List.prefix_of_prefix_length_le (List.prefix_append _ _) hx hge
      have hy : y <+: streamOf fs := (List.prefix_append_right_inj f.text).mp hx
      obtain ⟨done, rest, kept, rfl, rfl, hkept⟩ := ih y hy
      exact ⟨f :: done, rest, kept, rfl, by simp, hkept⟩

/-- The loop over complete frames and an unfinished one. -/
theorem syslogLoop_frames (ps : SyslogParser V) (done : List Frame)
    (hdone : ∀ f ∈ done, Accepts ps f) (rest : List Frame) (kept : Bytes)
    (hkept : Unfinished kept rest) (pre : Bytes) (hne : streamOf done ++ kept ≠ [])
    (fuel : Nat) (hfuel : done.length < fuel) (handed : List (V × Bytes)) :
    syslogLoop ps true (pre ++ (streamOf done ++ kept)) fuel pre.length handed =
      some ⟨handed ++ done.filterMap (handedFor ps), kept, true⟩ := by
  obtain ⟨fuel, rfl⟩ : ∃ n, fuel = n + 1 := ⟨fuel - 1, by omega⟩
  induction done generalizing pre fuel handed with
  | nil =>
    rw [streamOf_nil, List.nil_append] at hne ⊢
    rcases hkept with rfl | ⟨f, fs, rfl, hpre, hlt⟩
    · exact absurd rfl hne
    · rw [syslogLoop_unfinished ps f pre kept hpre hlt hne]
      simp
  | cons f done ih =>
    obtain ⟨v, hv, -⟩ := hdone f List.mem_cons_self
    have hhand : handedFor ps f = some (ps.postParsing v, f.message) := by
      rw [handedFor, hv, Option.map_some]
    rw [streamOf_cons, List.append_assoc,
      syslogLoop_frame ps f (hdone f List.mem_cons_self) pre (streamOf done ++ kept) fuel handed]
    by_cases hend : streamOf done ++ kept = []
    · obtain ⟨hsd, rfl⟩ := List.append_eq_nil_iff.mp hend
      simp [eq_nil_of_streamOf hsd, hhand]
    · obtain ⟨fuel, rfl⟩ : ∃ n, fuel = n + 1 := ⟨fuel - 1, by simp at hfuel; omega⟩
      have ih := ih (fun g hg => hdone g (List.mem_cons_of_mem f hg)) (pre ++ f.text) hend
        (handed ++ (handedFor ps f).toList) fuel (by simp at hfuel; omega)
      rw [List.append_assoc] at ih
      simp only [if_neg hend, ih]
      simp [hhand]

/-- A piece of a stream holds no NUL to drop. -/
theorem rdropWhile_segment {data x y : Bytes} {frames : List Frame}
    (h : x ++ data ++ y = streamOf frames) :
    data.rdropWhile (· == Char.ofNat 0) = data := by
  rw [List.rdropWhile_eq_self_iff]
  intro hne hlast
  have hmem : data.getLast hne ∈ streamOf frames := by
    rw [← h]
    simp [List.getLast_mem hne]
  rw [beq_iff_eq] at hlast
  rw [hlast] at hmem
  exact noNul_streamOf frames hmem

/-- One call on the next piece of the stream hands on the frames it completes
and keeps the unfinished one. -/
theorem process_segment (ps : SyslogParser V) (frames : List Frame)
    (hframes : ∀ f ∈ frames, Accepts ps f) (sess_buf data later : Bytes) (hne : data ≠ [])
    (hstream : sess_buf ++ data ++ later = streamOf frames) :
    ∃ done rest kept, frames = done ++ rest ∧ Unfinished kept rest ∧
      kept ++ later = streamOf rest ∧
      ProcessStructuredSyslog ps data (some sess_buf) =
        some ⟨done.filterMap (handedFor ps), kept, true⟩ := by
  obtain ⟨done, rest, kept, rfl, hx, hkept⟩ :=
    streamOf_split frames (sess_buf ++ data) ⟨later, hstream⟩
  refine ⟨done, rest, kept, rfl, hkept, ?_, ?_⟩
  · rw [hx, streamOf_append, List.append_assoc] at hstream
    exact List.append_cancel_left hstream
  · have hlen : done.length < (streamOf done ++ kept).length + 1 := by
      have := length_le_streamOf done
      simp
      omega
    have hne' : streamOf done ++ kept ≠ [] := by
      rw [← hx]
      simp [hne]
    have hloop := syslogLoop_frames ps done
      (fun f hf => hframes f (List.mem_append_left rest hf)) rest kept hkept [] hne' _ hlen []
    simp only [ProcessStructuredSyslog, rdropWhile_segment hstream, if_neg hne,
      Option.getD_some, Option.isSome_some, hx]
    simpa using hloop

-- ---------------------------------------------------------------------------
-- A whole session
-- ---------------------------------------------------------------------------

/-- The session buffer holds what the stream has left unfinished. -/
theorem processSession_stream (ps : SyslogParser V) (segments : List Bytes)
    (hsegments : ∀ s ∈ segments, s ≠ []) (frames : List Frame)
    (hframes : ∀ f ∈ frames, Accepts ps f) (sess_buf : Bytes)
    (hkept : Unfinished sess_buf frames) (hstream : sess_buf ++ segments.flatten = streamOf frames) :
    processSession ps segments sess_buf = some (frames.filterMap (handedFor ps), []) := by
  induction segments generalizing frames sess_buf with
  | nil =>
    rw [List.flatten_nil, List.append_nil] at hstream
    obtain rfl := hkept.eq_nil hstream
    rw [processSession, hstream]
    rfl
  | cons data segments ih =>
    rw [List.flatten_cons, ← List.append_assoc] at hstream
    obtain ⟨done, rest, kept, rfl, hunf, hrest, hcall⟩ :=
      process_segment ps frames hframes sess_buf data segments.flatten
        (hsegments data List.mem_cons_self) hstream
    have ih := ih (fun s hs => hsegments s (List.mem_cons_of_mem data hs)) rest
      (fun f hf => hframes f (List.mem_append_right done hf)) kept hunf hrest
    rw [processSession, hcall]
    simp [ih, List.filterMap_append]

/-- However the stream of frames is cut into received buffers, the calls hand
on what one call on the whole stream hands on, which is every message in order,
and nothing is left in the session buffer. -/
theorem segmentation_independent (ps : SyslogParser V) (frames : List Frame)
    (hframes : ∀ f ∈ frames, Accepts ps f) (segments : List Bytes)
    (hsegments : ∀ s ∈ segments, s ≠ []) (hstream : segments.flatten = streamOf frames) :
    processSession ps segments [] = some (frames.filterMap (handedFor ps), []) ∧
      (frames ≠ [] → ProcessStructuredSyslog ps (streamOf frames) (some []) =
        some ⟨frames.filterMap (handedFor ps), [], true⟩) ∧
      (frames.filterMap (handedFor ps)).map Prod.snd = frames.map Frame.message := by
  refine ⟨processSession_stream ps segments hsegments frames hframes [] (.inl rfl) hstream,
    ?_, ?_⟩
  · intro hne
    have hdata : streamOf frames ≠ [] := fun h => hne (eq_nil_of_streamOf h)
    obtain ⟨done, rest, kept, rfl, hunf, hrest, hcall⟩ :=
      process_segment ps frames hframes [] (streamOf frames) [] hdata (by simp)
    rw [List.append_nil] at hrest
    obtain rfl := hunf.eq_nil hrest
    rw [hcall, hrest]
    simp
  · rw [List.map_filterMap, ← List.filterMap_eq_map]
    apply List.filterMap_congr
    intro f hf
    obtain ⟨v, hv, -⟩ := hframes f hf
    simp [handedFor, hv]

/-- A parser that keeps only the length in front of the `<`. -/
def lengthParser : SyslogParser Nat where
  parse_syslog text :=
    if (text.takeWhile Char.isDigit).isEmpty then none
    else if ((text.dropWhile Char.isDigit).dropWhile (· == ' ')).head? = some '<' then
      some (Nat.ofDigitChars 10 (text.takeWhile Char.isDigit) 0)
    else none
  msglen v := some v
  postParsing v := v

def sampleFrame : Frame where
  message := "<14>1 2016-12-06T11:38:19.818Z h p:[a] b]".toList
  noNul := by decide
  ends := by decide
  short := by decide

/-- Two frames, cut within the length, after the space and after a `]` that is
not the end. -/
theorem segmentation_sample :
    processSession lengthParser
      [['4'], "1 ".toList, "<14>1 2016-12-06T11:38:19.818Z h p:[a]".toList, " b]4".toList,
        "1 <14>1 2016-12-06T11:38:19.818Z h p:[a] b]".toList] [] =
      some ([(41, sampleFrame.message), (41, sampleFrame.message)], []) :=
  (segmentation_independent lengthParser [sampleFrame, sampleFrame]
    (by
      intro f hf
      have hf : f = sampleFrame := by simpa using hf
      subst hf
      exact ⟨41, by decide, by decide⟩)
    _ (by decide) (by decide)).1

end TfAnalytics.Collector
