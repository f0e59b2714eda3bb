import Mathlib.Data.List.Basic

/-!
# JSON texts

The grammar of JSON, over lists of characters. The texts of the elements of an array and of
the members of an object are part of its statement, so that one can say of which elements a
text is an array.

* `JsonText`: a value, without the whitespace around it;
* `separated_concat`, `separated_whitespace`: a list that is written element by element.
-/

namespace TfAnalytics.Lib

-- ---------------------------------------------------------------------------
-- Lists of elements
-- ---------------------------------------------------------------------------

def Whitespace (text : List Char) : Prop := ∀ c ∈ text, c ∈ [' ', '\t', '\n', '\r']

theorem whitespace_nil : Whitespace [] := fun _ hc => absurd hc List.not_mem_nil

theorem whitespace_append {a b : List Char} (ha : Whitespace a) (hb : Whitespace b) :
    Whitespace (a ++ b) := fun c hc => (List.mem_append.mp hc).elim (ha c) (hb c)

/-- One element or more, with commas between them; `item` says how one is written. -/
inductive Separated {α : Type} (item : α → List Char → Prop) : List α → List Char → Prop where
  | one {a : α} {text : List Char} (h : item a text) : Separated item [a] text
  | more {a : α} {rest : List α} {text text' : List Char} (h : item a text)
      (hrest : Separated item rest text') : Separated item (a :: rest) (text ++ ',' :: text')

/-- An element with whitespace around it. -/
def Spaced (elem text : List Char) : Prop :=
  ∃ before after, Whitespace before ∧ Whitespace after ∧ text = before ++ elem ++ after

/-- A member of an object, with whitespace around the name and the value. -/
def Member (member : List Char × List Char) (text : List Char) : Prop :=
  ∃ name value, Spaced member.1 name ∧ Spaced member.2 value ∧ text = name ++ ':' :: value

def ArrayOf (elems : List (List Char)) (text : List Char) : Prop :=
  ∃ body, text = '[' :: (body ++ [']']) ∧
    ((elems = [] ∧ Whitespace body) ∨ Separated Spaced elems body)

def ObjectOf (members : List (List Char × List Char)) (text : List Char) : Prop :=
  ∃ body, text = '{' :: (body ++ ['}']) ∧
    ((members = [] ∧ Whitespace body) ∨ Separated Member members body)

section

variable {α : Type} {item : α → List Char → Prop}

/-- One more element at the end. -/
theorem separated_concat {elems : List α} {text : List Char} (h : Separated item elems text) {a : α}
    {text' : List Char} (ha : item a text') :
    Separated item (elems ++ [a]) (text ++ ',' :: text') := by
  induction h with
  | one h => exact .more h (.one ha)
  | more h _ ih =>
    rw [List.append_assoc]
    exact .more h ih

/-- Whitespace at the end goes to the last element. -/
theorem separated_whitespace {elems : List (List Char)} {text : List Char}
    (h : Separated Spaced elems text) {after : List Char} (hafter : Whitespace after) :
    Separated Spaced elems (text ++ after) := by
  induction h with
  | one h =>
    obtain ⟨before, after', hbefore, hafter', rfl⟩ := h
    refine .one ⟨before, after' ++ after, hbefore, whitespace_append hafter' hafter, ?_⟩
    rw [List.append_assoc]
  | more h _ ih =>
    rw [List.append_assoc]
    exact .more h ih

theorem spaced_self (elem : List Char) : Spaced elem elem :=
  ⟨[], [], whitespace_nil, whitespace_nil, (List.append_nil _).symm⟩

theorem spaced_before {before elem : List Char} (h : Whitespace before) :
    Spaced elem (before ++ elem) :=
  ⟨before, [], h, whitespace_nil, (List.append_nil _).symm⟩

end

-- ---------------------------------------------------------------------------
-- Values
-- ---------------------------------------------------------------------------

/-- One digit or more. -/
def Digits (text : List Char) : Prop := text ≠ [] ∧ ∀ c ∈ text, c.isDigit = true

/-- Without a leading zero. -/
def IntPart (text : List Char) : Prop := text = ['0'] ∨ Digits text ∧ text.head? ≠ some '0'

def NumberText (text : List Char) : Prop :=
  ∃ sign whole fraction exponent, text = sign ++ whole ++ fraction ++ exponent ∧
    (sign = [] ∨ sign = ['-']) ∧ IntPart whole ∧
    (fraction = [] ∨ ∃ digits, Digits digits ∧ fraction = '.' :: digits) ∧
    (exponent = [] ∨ ∃ e s digits, (e = 'e' ∨ e = 'E') ∧ (s = [] ∨ s = ['+'] ∨ s = ['-']) ∧
      Digits digits ∧ exponent = e :: (s ++ digits))

/-- A hexadecimal digit. -/
def HexDigit (c : Char) : Prop :=
  c.isDigit = true ∨ ('a' ≤ c ∧ c ≤ 'f') ∨ ('A' ≤ c ∧ c ≤ 'F')

/-- What stands between the quotes of a string. -/
inductive StringBody : List Char → Prop where
  | nil : StringBody []
  | plain {c : Char} {rest : List Char} (hcontrol : 0x20 ≤ c.toNat) (hquote : c ≠ '"')
      (hescape : c ≠ '\\') (hrest : StringBody rest) : StringBody (c :: rest)
  | escape {c : Char} {rest : List Char} (hc : c ∈ ['"', '\\', '/', 'b', 'f', 'n', 'r', 't'])
      (hrest : StringBody rest) : StringBody ('\\' :: c :: rest)
  | code {a b c d : Char} {rest : List Char} (ha : HexDigit a) (hb : HexDigit b) (hc : HexDigit c)
      (hd : HexDigit d) (hrest : StringBody rest) : StringBody ('\\' :: 'u' :: a :: b :: c :: d :: rest)

def StringText (text : List Char) : Prop := ∃ body, StringBody body ∧ text = '"' :: (body ++ ['"'])

/-- A JSON value, without whitespace around it. -/
inductive JsonText : List Char → Prop where
  | null : JsonText ['n', 'u', 'l', 'l']
  | true : JsonText ['t', 'r', 'u', 'e']
  | false : JsonText ['f', 'a', 'l', 's', 'e']
  | number {text : List Char} (h : NumberText text) : JsonText text
  | string {text : List Char} (h : StringText text) : JsonText text
  | array {elems : List (List Char)} {text : List Char} (helems : ∀ elem ∈ elems, JsonText elem)
      (h : ArrayOf elems text) : JsonText text
  | object {members : List (List Char × List Char)} {text : List Char}
      (hnames : ∀ member ∈ members, StringText member.1)
      (hvalues : ∀ member ∈ members, JsonText member.2) (h : ObjectOf members text) : JsonText text

end TfAnalytics.Lib
