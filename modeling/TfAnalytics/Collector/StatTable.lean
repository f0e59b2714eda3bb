import Mathlib.Data.Fin.Basic
import Mathlib.Data.List.Basic
import Mathlib.Logic.Function.Basic
import Mathlib.Tactic.Ring

/-!
# Collector — how the tags of a stats sample are stored

`DbHandler::StatTableInsertTtl` (db_handler.cc) sorts the tags of a sample into the
columns of the stats table: `name`, `Source`, the tags whose names end in `__key`
and in `proxy` have columns of their own, and all others are collected as `n=v` in
one of four vectors, chosen by a hash of the name. `StatTableWrite` joins each
vector with `;` and puts the time row `T2` in front of every column but the first.

A `std::string` is a list of characters, one for each byte.

* `stored_columns`: what the columns hold, read off the list of all writes.
-/

namespace TfAnalytics.Collector

abbrev Text : Type := List Char

def STATS_NAME_FIELD : Text := "name".toList
def STATS_SOURCE_FIELD : Text := "Source".toList
def STATS_KEY_FIELD : Text := "__key".toList
def STATS_PROXY_FIELD : Text := "proxy".toList
def NUM_STATS_TAGS_FIELD : Nat := 4

def ends_with (input test : Text) : Bool := test.isSuffixOf input

/-- A `char` is signed, so the bytes from 128 on are added as negative numbers. -/
def signedChar (c : Char) : Nat := if c.toNat < 128 then c.toNat else 2 ^ 32 + c.toNat - 256

def djb_hash (str : Text) : Nat :=
  str.foldl (fun hash c => (33 * hash + signedChar c) % 2 ^ 32) 5381

instance tagFields_neZero : NeZero 4 := ⟨by decide⟩

def tagIndex (name : Text) : Fin 4 := ⟨djb_hash name % NUM_STATS_TAGS_FIELD, Nat.mod_lt _ (by decide)⟩

-- ---------------------------------------------------------------------------
-- Tags
-- ---------------------------------------------------------------------------

/-- `DbHandler::Var`. -/
inductive Var (δ : Type) where
  | INVALID
  | UINT64 (num : Fin (2 ^ 64))
  | STRING (str : Text)
  | DOUBLE (dbl : δ)
  | LIST (vec : List Text)
  | MAP (map : List (Text × Text))

/-- `AttribMap`, in the order of its iteration. -/
abbrev AttribMap (δ : Type) : Type := List (Text × Var δ)

/-- `TagMap`, in the order of its iteration. -/
abbrev TagMap (δ : Type) : Type := List (Text × Var δ × AttribMap δ)

section

variable {δ : Type} (showDouble : δ → Text)

/-- The member `str`. -/
def Var.str : Var δ → Text
  | .STRING str => str
  | _ => []

/-- `boost::algorithm::join`. -/
def join (separator : Text) (parts : List Text) : Text := List.intercalate separator parts

/-- `operator<<`; `showDouble` is that of a `double`. -/
def Var.print : Var δ → Text
  | .INVALID => "Invalid type: 0".toList
  | .UINT64 num => Nat.toDigits 10 num.val
  | .STRING str => str
  | .DOUBLE dbl => showDouble dbl
  | .LIST vec => join "; ".toList vec
  | .MAP map => map.flatMap fun e => '\x7b' :: e.1 ++ ':' :: e.2 ++ "\x7d, ".toList

-- ---------------------------------------------------------------------------
-- StatTableInsertTtl
-- ---------------------------------------------------------------------------

/-- The local variables that collect the columns. -/
structure StatColumns where
  name : Text
  source : Text
  key : Text
  proxy : Text
  tags : Fin 4 → List Text

def StatColumns.initial : StatColumns := ⟨[], [], [], [], fun _ => []⟩

/-- The text of a tag. -/
def tagText (name value : Text) : Text := name ++ '=' :: value

/-- The columns that a tag can go to. -/
inductive TagColumn where
  | name | source | key | proxy
  | tags (i : Fin 4)
  deriving DecidableEq

/-- One variable assigned, or a vector extended. -/
def StatColumns.assign (cols : StatColumns) (column : TagColumn) (str : Text) : StatColumns :=
  match column with
  | .name => { cols with name := str }
  | .source => { cols with source := str }
  | .key => { cols with key := str }
  | .proxy => { cols with proxy := str }
  | .tags i => { cols with tags := Function.update cols.tags i (cols.tags i ++ [str]) }

/-- `tags[idx].push_back(tag_oss.str())`. -/
def pushTag (name value : Text) (cols : StatColumns) : StatColumns :=
  cols.assign (.tags (tagIndex name)) (tagText name value)

/-- The `switch` on the type of a tag. -/
def pushVar (name : Text) (var : Var δ) (cols : StatColumns) : StatColumns :=
  match var with
  | .STRING _ | .UINT64 _ | .DOUBLE _ => pushTag name (var.print showDouble) cols
  | .LIST vec => vec.foldl (fun cols elem => pushTag name elem cols) cols
  | .MAP map => map.foldl (fun cols pair => pushTag (name ++ '.' :: pair.1) pair.2 cols) cols
  | .INVALID => cols

/-- Where the name of a tag sends it; `none` is the last branch. -/
def specialColumn (name : Text) : Option TagColumn :=
  if name = STATS_NAME_FIELD then some .name
  else if name = STATS_SOURCE_FIELD then some .source
  else if ends_with name STATS_KEY_FIELD then some .key
  else if ends_with name STATS_PROXY_FIELD then some .proxy
  else none

/-- The inner loop: what is not special is pushed once whatever its type, and once
more by its type. -/
def writeAttrib (cols : StatColumns) (jt : Text × Var δ) : StatColumns :=
  match specialColumn jt.1 with
  | some column => cols.assign column jt.2.str
  | none => pushVar showDouble jt.1 jt.2 (pushTag jt.1 (jt.2.print showDouble) cols)

/-- The outer loop. A tag without a type is skipped together with its attributes. -/
def writeTag (cols : StatColumns) (it : Text × Var δ × AttribMap δ) : StatColumns :=
  match specialColumn it.1, it.2.1 with
  | some column, var => it.2.2.foldl (writeAttrib showDouble) (cols.assign column var.str)
  | none, .INVALID => cols
  | none, var => it.2.2.foldl (writeAttrib showDouble) (pushVar showDouble it.1 var cols)

def StatTableInsertTtl (attribs_tag : TagMap δ) : StatColumns :=
  attribs_tag.foldl (writeTag showDouble) .initial

-- ---------------------------------------------------------------------------
-- StatTableWrite
-- ---------------------------------------------------------------------------

def PrependT2 (T2 : Nat) (str : Text) : Text := Nat.toDigits 10 T2 ++ ':' :: str

/-- The text columns that `StatTableWrite` fills. -/
def StatTableWrite (t2 : Nat) (cols : StatColumns) : String → Option Text
  | "column1" => some cols.name
  | "column4" => some (PrependT2 t2 cols.source)
  | "column5" => some (PrependT2 t2 cols.key)
  | "column6" => some (PrependT2 t2 cols.proxy)
  | "column7" => some (PrependT2 t2 (join [';'] (cols.tags 0)))
  | "column8" => some (PrependT2 t2 (join [';'] (cols.tags 1)))
  | "column9" => some (PrependT2 t2 (join [';'] (cols.tags 2)))
  | "column10" => some (PrependT2 t2 (join [';'] (cols.tags 3)))
  | _ => none

/-- The column of the table behind a variable. -/
def TagColumn.column : TagColumn → String
  | .name => "column1"
  | .source => "column4"
  | .key => "column5"
  | .proxy => "column6"
  | .tags 0 => "column7"
  | .tags 1 => "column8"
  | .tags 2 => "column9"
  | .tags 3 => "column10"

-- ---------------------------------------------------------------------------
-- What a sample carries, and what is written for it
-- ---------------------------------------------------------------------------

/-- A tag of this name and value says that the sample has the tag `n` with the
value `v`: itself, as an element of a list, or as an element of a map. -/
def Bears (name : Text) (var : Var δ) (n v : Text) : Prop :=
  match var with
  | .STRING _ | .UINT64 _ | .DOUBLE _ => name = n ∧ var.print showDouble = v
  | .LIST vec => name = n ∧ v ∈ vec
  | .MAP map => ∃ pair ∈ map, name ++ '.' :: pair.1 = n ∧ pair.2 = v
  | .INVALID => False

/-- The sample carries the tag `n` with the value `v`. -/
def Carries (attribs_tag : TagMap δ) (n v : Text) : Prop :=
  ∃ it ∈ attribs_tag, Bears showDouble it.1 it.2.1 n v ∨
    ∃ jt ∈ it.2.2, Bears showDouble jt.1 jt.2 n v

/-- One write of the loops. -/
structure TagWrite where
  column : TagColumn
  name : Text
  value : Text

def TagWrite.text (w : TagWrite) : Text :=
  match w.column with
  | .tags _ => tagText w.name w.value
  | _ => w.value

def tagWrite (name value : Text) : TagWrite := ⟨.tags (tagIndex name), name, value⟩

def varWrites (name : Text) (var : Var δ) : List TagWrite :=
  match var with
  | .STRING _ | .UINT64 _ | .DOUBLE _ => [tagWrite name (var.print showDouble)]
  | .LIST vec => vec.map fun elem => tagWrite name elem
  | .MAP map => map.map fun pair => tagWrite (name ++ '.' :: pair.1) pair.2
  | .INVALID => []

def attribWrites (jt : Text × Var δ) : List TagWrite :=
  match specialColumn jt.1 with
  | some column => [⟨column, jt.1, jt.2.str⟩]
  | none => tagWrite jt.1 (jt.2.print showDouble) :: varWrites showDouble jt.1 jt.2

def tagWrites (it : Text × Var δ × AttribMap δ) : List TagWrite :=
  match specialColumn it.1, it.2.1 with
  | some column, var => ⟨column, it.1, var.str⟩ :: it.2.2.flatMap (attribWrites showDouble)
  | none, .INVALID => []
  | none, var => varWrites showDouble it.1 var ++ it.2.2.flatMap (attribWrites showDouble)

/-- All writes for a sample, in order. -/
def writes (attribs_tag : TagMap δ) : List TagWrite := attribs_tag.flatMap (tagWrites showDouble)

/-- The content of a column: the last write, or all of them. -/
def cellOf (ws : List TagWrite) (column : TagColumn) : Text :=
  let texts := (ws.filter fun w => w.column = column).map TagWrite.text
  match column with
  | .tags _ => join [';'] texts
  | _ => texts.getLast?.getD []

def StatColumns.write (cols : StatColumns) (w : TagWrite) : StatColumns := cols.assign w.column w.text

theorem pushTag_eq (name value : Text) (cols : StatColumns) :
    pushTag name value cols = cols.write (tagWrite name value) := rfl

theorem pushVar_eq (name : Text) (var : Var δ) (cols : StatColumns) :
    pushVar showDouble name var cols = (varWrites showDouble name var).foldl .write cols := by
  cases var with
  | INVALID => rfl
  | UINT64 num => rfl
  | STRING str => rfl
  | DOUBLE dbl => rfl
  | LIST vec =>
    rw [varWrites, List.foldl_map]
    rfl
  | MAP map =>
    rw [varWrites, List.foldl_map]
    rfl

theorem specialColumn_write {name : Text} {column : TagColumn} (h : specialColumn name = some column)
    (str : Text) (cols : StatColumns) :
    cols.assign column str = cols.write ⟨column, name, str⟩ := by
  unfold specialColumn at h
  split at h
  · cases h; rfl
  · split at h
    · cases h; rfl
    · split at h
      · cases h; rfl
      · split at h
        · cases h; rfl
        · cases h

theorem writeAttrib_eq (cols : StatColumns) (jt : Text × Var δ) :
    writeAttrib showDouble cols jt = (attribWrites showDouble jt).foldl .write cols := by
  unfold writeAttrib attribWrites
  split
  · rename_i column h
    exact specialColumn_write h jt.2.str cols
  · rw [pushVar_eq, pushTag_eq, List.foldl_cons]

theorem foldl_writeAttrib (attribs : AttribMap δ) (cols : StatColumns) :
    attribs.foldl (writeAttrib showDouble) cols =
      (attribs.flatMap (attribWrites showDouble)).foldl .write cols := by
  rw [List.foldl_flatMap]
  congr 1
  funext cols jt
  exact writeAttrib_eq showDouble cols jt

theorem writeTag_eq (cols : StatColumns) (it : Text × Var δ × AttribMap δ) :
    writeTag showDouble cols it = (tagWrites showDouble it).foldl .write cols := by
  unfold writeTag tagWrites
  split
  · rename_i column h
    rw [foldl_writeAttrib, List.foldl_cons, specialColumn_write h]
  · rfl
  · rw [foldl_writeAttrib, List.foldl_append, pushVar_eq]

/-- The loops make the writes one after the other. -/
theorem statTableInsertTtl_eq (attribs_tag : TagMap δ) :
    StatTableInsertTtl showDouble attribs_tag = (writes showDouble attribs_tag).foldl .write .initial := by
  unfold StatTableInsertTtl writes
  rw [List.foldl_flatMap]
  congr 1
  funext cols it
  exact writeTag_eq showDouble cols it

/-- The text collected for a column. -/
def StatColumns.get (cols : StatColumns) : TagColumn → Text
  | .name => cols.name
  | .source => cols.source
  | .key => cols.key
  | .proxy => cols.proxy
  | .tags i => join [';'] (cols.tags i)

theorem tags_foldl_write (ws : List TagWrite) (cols : StatColumns) (i : Fin 4) :
    (ws.foldl .write cols).tags i =
      cols.tags i ++ (ws.filter fun w => w.column = .tags i).map TagWrite.text := by
  induction ws generalizing cols with
  | nil => simp
  | cons w ws ih =>
    rw [List.foldl_cons, ih]
    by_cases hw : w.column = .tags i
    · have hone : (cols.write w).tags i = cols.tags i ++ [w.text] := by
        simp [StatColumns.write, StatColumns.assign, hw]
      rw [hone, List.filter_cons_of_pos (by simpa using hw), List.map_cons, List.append_assoc]
      rfl
    · have hone : (cols.write w).tags i = cols.tags i := by
        unfold StatColumns.write StatColumns.assign
        split
        all_goals try rfl
        rename_i j hj
        have hne : i ≠ j := by
          rintro rfl
          exact hw hj
        exact Function.update_of_ne hne _ _
      rw [hone, List.filter_cons_of_neg (by simpa using hw)]

theorem get_write (cols : StatColumns) (w : TagWrite) {column : TagColumn}
    (hcolumn : ∀ i, column ≠ .tags i) :
    (cols.write w).get column = if w.column = column then w.text else cols.get column := by
  unfold StatColumns.write StatColumns.assign
  cases column with
  | tags i => exact absurd rfl (hcolumn i)
  | _ =>
    cases hw : w.column <;> simp [StatColumns.get]

theorem get_foldl_write (ws : List TagWrite) (cols : StatColumns) {column : TagColumn}
    (hcolumn : ∀ i, column ≠ .tags i) :
    (ws.foldl .write cols).get column =
      ((ws.filter fun w => w.column = column).map TagWrite.text).getLast?.getD
        (cols.get column) := by
  induction ws generalizing cols with
  | nil => rfl
  | cons w ws ih =>
    rw [List.foldl_cons, ih, get_write cols w hcolumn]
    by_cases hw : w.column = column
    · rw [if_pos hw, List.filter_cons_of_pos (by simpa using hw), List.map_cons,
        List.getLast?_cons]
      rfl
    · rw [if_neg hw, List.filter_cons_of_neg (by simpa using hw)]

/-- What the loops collect for a column. -/
theorem get_statTableInsertTtl (attribs_tag : TagMap δ) (column : TagColumn) :
    (StatTableInsertTtl showDouble attribs_tag).get column =
      cellOf (writes showDouble attribs_tag) column := by
  rw [statTableInsertTtl_eq]
  cases column with
  | tags i =>
    rw [StatColumns.get, tags_foldl_write, cellOf]
    rfl
  | _ =>
    rw [get_foldl_write _ _ (by exact fun i => nofun)]
    rfl

/-- What is in the columns of the table: only the first is without the time row. -/
theorem stored_columns (t2 : Nat) (attribs_tag : TagMap δ) (column : TagColumn) :
    StatTableWrite t2 (StatTableInsertTtl showDouble attribs_tag) column.column =
      some (if column = .name then cellOf (writes showDouble attribs_tag) column
        else PrependT2 t2 (cellOf (writes showDouble attribs_tag) column)) := by
  rw [← get_statTableInsertTtl]
  cases column with
  | tags i =>
    match i with
    | 0 | 1 | 2 | 3 => rfl
  | _ => rfl

end

end TfAnalytics.Collector
