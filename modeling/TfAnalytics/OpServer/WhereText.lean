import TfAnalytics.Lib.Words
import Mathlib.Data.List.DropRight
import Mathlib.Data.List.Infix

/-!
# OpServer — the text of a WHERE clause

`OpServerUtils.get_query_dict` (opserver_util.py) cuts the text at every `OR`, what is
between them at every `AND`, and each condition at the first `CONTAINS` or `=`. What is
left of it is the name, or two names with a `|` between them; what is right of it the
value, or two values, a range `a<b` or a prefix `v*`. `Match` decodes a value as JSON if it
can.

Here is the parser, and how a query is written for it.

A Python string is a list of characters.
-/

namespace TfAnalytics.OpServer.WhereText

open TfAnalytics.Lib

abbrev Text : Type := List Char

/-- `OpServerUtils.MatchOp`. -/
inductive MatchOp where
  | EQUAL
  | NOT_EQUAL
  | IN_RANGE
  | NOT_IN_RANGE
  | LEQ
  | GEQ
  | PREFIX
  | REGEX_MATCH
  | CONTAINS
  deriving DecidableEq

/-- The members of a `Match` without its suffix. -/
structure Match (V : Type) where
  name : Text
  value : V
  op : MatchOp
  value2 : Option V

/-- A `Match`, and the one that it has as suffix. -/
structure MatchDict (V : Type) where
  elem : Match V
  suffix : Option (Match V)

-- ---------------------------------------------------------------------------
-- The parser
-- ---------------------------------------------------------------------------

def wordOR : Text := "OR".toList
def wordAND : Text := "AND".toList
def wordCONTAINS : Text := "CONTAINS".toList

def trimmed (c : Char) : Bool := c = ' ' || c = '(' || c = ')'

/-- `s.strip(' ()')`. -/
def strip (s : Text) : Text := (s.dropWhile trimmed).rdropWhile trimmed

/-- `re.split('CONTAINS|=', s, 1)`, if there are two parts. -/
def reSplit : Text → Option (Text × Text)
  | [] => none
  | c :: s =>
    if c = '=' then some ([], s)
    else if wordCONTAINS <+: c :: s then some ([], (c :: s).drop wordCONTAINS.length)
    else (reSplit s).map fun parts => (c :: parts.1, parts.2)

section Parser

variable {V : Type} (loads : Text → V)

/-- The `Match` for the parts of a value; `none` is an exception. -/
def matchElem (contains : Bool) (tname : Text) (match_v : List Text) : Option (Match V) :=
  match match_v with
  | [] => none
  | [v] =>
    if contains then some ⟨tname, loads v, .CONTAINS, none⟩
    else
      match v.getLast? with
      | none => none
      | some c =>
        if c = '*' then some ⟨tname, loads v.dropLast, .PREFIX, none⟩
        else some ⟨tname, loads v, .EQUAL, none⟩
  | v :: v2 :: _ => some ⟨tname, loads v, .IN_RANGE, some (loads v2)⟩

/-- A condition, from what is on either side of the operator. -/
def parseParts (contains : Bool) (match_e0 match_e1 : Text) : Option (MatchDict V) :=
  match match_e0.splitOn '|' with
  | [] => none
  | [tname] =>
    (matchElem loads contains tname (match_e1.splitOn '<')).map fun elem => ⟨elem, none⟩
  | bname :: tname :: _ =>
    match match_e1.splitOn '|' with
    | bval :: match_vp1 :: _ =>
      (matchElem loads contains tname (match_vp1.splitOn '<')).map fun elem =>
        ⟨⟨bname, loads bval, .EQUAL, none⟩, some elem⟩
    | _ => none

def parseMatch (m : Text) : Option (MatchDict V) :=
  (reSplit (strip m)).bind fun match_e =>
    parseParts loads (decide (wordCONTAINS <:+: m)) (strip match_e.1) (strip match_e.2)

/-- `term_elem`; an empty text between two `AND` is skipped. -/
def parseTerm (term : Text) : Option (List (MatchDict V)) :=
  ((pieces wordAND term).filter fun m => m ≠ []).mapM (parseMatch loads)

/-- One turn of the loop over the OR terms. After `where = None` there is no `append`. -/
def parseOr (where_list : Option (List (List (MatchDict V)))) (term : Text) :
    Option (Option (List (List (MatchDict V)))) := do
  let term_elem ← parseTerm loads term
  if term_elem.length = 0 then some none
  else
    match where_list with
    | some terms => some (some (terms ++ [term_elem]))
    | none => none

/-- The `where` of the query. -/
def get_query_where (where_clause : Text) : Option (Option (List (List (MatchDict V)))) :=
  (pieces wordOR where_clause).foldlM (parseOr loads) (some [])

end Parser

-- ---------------------------------------------------------------------------
-- Queries as they are written
-- ---------------------------------------------------------------------------

/-- A name or a value: not empty, without the characters of the operators, and without
blanks at its ends. -/
structure Plain (s : Text) : Prop where
  ne_nil : s ≠ []
  chars : ∀ c ∈ s, c ∉ "=<|*()".toList
  head : s.head? ≠ some ' '
  last : s.getLast? ≠ some ' '

theorem plain_iff (s : Text) :
    (s ≠ [] ∧ (s.all fun c => !"=<|*()".toList.contains c) = true ∧ s.head? ≠ some ' ' ∧
      s.getLast? ≠ some ' ') ↔ Plain s := by
  have hchars : (s.all fun c => !"=<|*()".toList.contains c) = true ↔
      ∀ c ∈ s, c ∉ "=<|*()".toList := by
    rw [List.all_eq_true]
    refine forall₂_congr fun c _ => ?_
    rw [Bool.not_eq_true', ← Bool.not_eq_true, List.contains_iff_mem]
  rw [hchars]
  exact ⟨fun ⟨hne, hall, hhead, hlast⟩ => ⟨hne, hall, hhead, hlast⟩,
    fun h => ⟨h.ne_nil, h.chars, h.head, h.last⟩⟩

instance (s : Text) : Decidable (Plain s) := decidable_of_iff _ (plain_iff s)

abbrev PlainText : Type := {s : Text // Plain s}

inductive Test where
  | EQUAL (value : PlainText)
  | PREFIX (value : PlainText)
  | IN_RANGE (value value2 : PlainText)
  | CONTAINS (value : PlainText)

/-- A condition, with the name and the value that stand in front if there are any. -/
structure Cond where
  front : Option (PlainText × PlainText)
  name : PlainText
  test : Test

namespace Test

def text : Test → Text
  | .EQUAL v => v.val
  | .PREFIX v => v.val ++ ['*']
  | .IN_RANGE v v2 => v.val ++ '<' :: v2.val
  | .CONTAINS v => v.val

def operator : Test → Text
  | .CONTAINS _ => ' ' :: (wordCONTAINS ++ [' '])
  | _ => ['=']

def values : Test → List Text
  | .EQUAL v | .PREFIX v | .CONTAINS v => [v.val]
  | .IN_RANGE v v2 => [v.val, v2.val]

def toMatch {V : Type} (loads : Text → V) (name : Text) : Test → Match V
  | .EQUAL v => ⟨name, loads v.val, .EQUAL, none⟩
  | .PREFIX v => ⟨name, loads v.val, .PREFIX, none⟩
  | .IN_RANGE v v2 => ⟨name, loads v.val, .IN_RANGE, some (loads v2.val)⟩
  | .CONTAINS v => ⟨name, loads v.val, .CONTAINS, none⟩

end Test

namespace Cond

variable (c : Cond)

def nameText : Text :=
  match c.front with
  | some f => f.1.val ++ '|' :: c.name.val
  | none => c.name.val

def valueText : Text :=
  match c.front with
  | some f => f.2.val ++ '|' :: c.test.text
  | none => c.test.text

/-- `name=value`, `name=value*`, `name=a<b` or `name CONTAINS value`. -/
def render : Text := c.nameText ++ (c.test.operator ++ c.valueText)

def names : List Text :=
  match c.front with
  | some f => [f.1.val, c.name.val]
  | none => [c.name.val]

def values : List Text :=
  match c.front with
  | some f => f.2.val :: c.test.values
  | none => c.test.values

/-- The dictionary that stands for the condition. -/
def toMatch {V : Type} (loads : Text → V) : MatchDict V :=
  match c.front with
  | some f => ⟨⟨f.1.val, loads f.2.val, .EQUAL, none⟩, some (c.test.toMatch loads c.name.val)⟩
  | none => ⟨c.test.toMatch loads c.name.val, none⟩

end Cond

/-- A disjunction of conjunctions of conditions. -/
structure Dnf where
  terms : List (List Cond)
  terms_ne_nil : terms ≠ []
  conds_ne_nil : ∀ conds ∈ terms, conds ≠ []

def renderTerm (conds : List Cond) : Text := joinWords ' ' wordAND (conds.map Cond.render)

namespace Dnf

variable (d : Dnf)

def render : Text := joinWords ' ' wordOR (d.terms.map renderTerm)

def toWhere {V : Type} (loads : Text → V) : List (List (MatchDict V)) :=
  d.terms.map fun conds => conds.map fun c => c.toMatch loads

end Dnf

/-- JSON decoding, of the texts that are JSON. -/
structure JsonLoads (V : Type) where
  loads : Text → V
  /-- Leaving off the end of a text and decoding the same, only blanks and digits are left
  off, no word. -/
  keeps_and : ∀ s t : Text, s <+: t → loads s = loads t → wordAND <:+: t → wordAND <:+: s

end TfAnalytics.OpServer.WhereText
