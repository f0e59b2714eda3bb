import Mathlib.Data.List.Basic

/-!
# The values of UVE attributes

An attribute of a UVE is stored as the XML text its generator sent; `xmltodict` turns the
text into dictionaries. `AttrValue` is what these dictionaries can be: a basic value with its
text, a struct, a list, or a map. The element that names a struct, a list's elements or a
map's struct values (`VnStats`) is kept as a name of its own. An empty element is read as
`None`: it stands here as a struct without members, or as a missing text. Annotations that
no code reads (`@identifier`) are left out, and a map's `@size` is the number of its
entries.

`flatten` is `OpServerUtils.uve_attr_flatten`, which reads the texts by their types. It
fails exactly when some text inside the value is one that its type cannot read
(`flatten_isSome_iff`).
-/

namespace TfAnalytics.OpServer

-- ---------------------------------------------------------------------------
-- Types and annotations
-- ---------------------------------------------------------------------------

/-- `@type` of a basic value, as far as the code tells them apart. -/
inductive BasicType
  | i8 | i16 | i32 | i64 | byte | u8 | u16 | u32 | u64 | float | double | bool
  | other (name : String)
  deriving DecidableEq

/-- `@aggtype`. -/
inductive AggType
  | sum | union | append | listkey
  | other (name : String)
  deriving DecidableEq

/-- `@type`. -/
inductive AttrType
  | basic (type : BasicType)
  | struct | list | map
  deriving DecidableEq

/-- `in ['i8', 'i16', 'i32', 'i64', 'byte', 'u8', 'u16', 'u32', 'u64']`, the types that are
summed. -/
def BasicType.isCounter : BasicType → Bool
  | .i8 | .i16 | .i32 | .i64 | .byte | .u8 | .u16 | .u32 | .u64 => true
  | .float | .double | .bool | .other _ => false

/-- `in ['i16', 'i32', 'i64', 'byte', 'u64', 'u32', 'u16']`, the types whose text is flattened
to an integer. -/
def BasicType.flattensToInt : BasicType → Bool
  | .i16 | .i32 | .i64 | .byte | .u16 | .u32 | .u64 => true
  | .i8 | .u8 | .float | .double | .bool | .other _ => false

/-- `in ['float', 'double']`. -/
def BasicType.flattensToFloat : BasicType → Bool
  | .float | .double => true
  | _ => false

theorem BasicType.isCounter_of_flattensToInt {t : BasicType} (h : t.flattensToInt = true) :
    t.isCounter = true := by
  cases t <;> first | rfl | cases h

theorem BasicType.flattensToFloat_of_isCounter {t : BasicType} (h : t.isCounter = true) :
    t.flattensToFloat = false := by
  cases t <;> first | rfl | cases h

-- ---------------------------------------------------------------------------
-- Values
-- ---------------------------------------------------------------------------

mutual

/-- What `xmltodict` makes of an attribute. -/
inductive AttrValue
  | basic (aggtype : Option AggType) (type : BasicType) (text : Option String)
  | struct (aggtype : Option AggType) (name : String) (members : List (String × AttrValue))
  | list (aggtype : Option AggType) (name : String) (size : String) (items : List Elem)
  /-- A map to texts. -/
  | textMap (aggtype : Option AggType) (entries : List (Option String × Option String))
  /-- A map to structs. -/
  | structMap (aggtype : Option AggType) (name : String)
      (entries : List (Option String × List (String × AttrValue)))

/-- An element of a list. -/
inductive Elem
  | text (text : Option String)
  | struct (members : List (String × AttrValue))

end

/-- The members of a struct. -/
abbrev Members := List (String × AttrValue)

namespace AttrValue

/-- `['@type']`. -/
def type : AttrValue → AttrType
  | basic _ t _ => .basic t
  | struct .. => .struct
  | list .. => .list
  | textMap .. | structMap .. => .map

/-- `.get('@aggtype')`. -/
def aggtype : AttrValue → Option AggType
  | basic a _ _ | struct a _ _ | list a _ _ _ | textMap a _ | structMap a _ _ => a

/-- `['#text']`, if there is one. -/
def text : AttrValue → Option String
  | basic _ _ t => t
  | struct .. | list .. | textMap .. | structMap .. => none

/-- Whether the type is one of those that are summed. -/
def isCounter (v : AttrValue) : Bool :=
  match v.type with
  | .basic t => t.isCounter
  | .struct | .list | .map => false

end AttrValue

-- ---------------------------------------------------------------------------
-- Flattening
-- ---------------------------------------------------------------------------

/-- Python's readers of text. -/
structure Builtins where
  int : String → Option Int
  float : String → Option Float
  /-- `int` reads what `str` writes. -/
  int_str : ∀ n : Int, int (toString n) = some n
  /-- `json.dumps` of a value with `sort_keys`, of a list's element and of a map's key. -/
  dumps : AttrValue → String
  dumpsElem : Elem → String
  dumpsKey : Option String → String
  /-- `==` of two values. -/
  eq : AttrValue → AttrValue → Bool

/-- The digits of a number that is not negative. -/
def digits (cs : List Char) : Option Nat :=
  if cs ≠ [] ∧ cs.all Char.isDigit then some (Nat.ofDigitChars 10 cs 0) else none

/-- `int` on digits with at most a minus sign before them. -/
def decimal (s : String) : Option Int :=
  match s.toList with
  | '-' :: cs => (digits cs).map fun n => -Int.ofNat n
  | cs => (digits cs).map Int.ofNat

theorem digits_toDigits (n : Nat) : digits (Nat.toDigits 10 n) = some n := by
  have hdigits : (Nat.toDigits 10 n).all Char.isDigit = true :=
    List.all_eq_true.mpr fun c hc => Nat.isDigit_of_mem_toDigits (by decide) (by decide) hc
  rw [digits, if_pos ⟨Nat.toDigits_ne_nil, hdigits⟩, Nat.ofDigitChars_ten_toDigits]

theorem decimal_toString (n : Int) : decimal (toString n) = some n := by
  cases n with
  | ofNat n =>
    have htext : (toString (Int.ofNat n)).toList = Nat.toDigits 10 n := Nat.toList_repr
    have hsign : ∀ cs, Nat.toDigits 10 n ≠ '-' :: cs := by
      intro cs heq
      have hdigit := Nat.isDigit_of_mem_toDigits (by decide) (by decide)
        (show '-' ∈ Nat.toDigits 10 n by simp [heq])
      exact absurd hdigit (by decide)
    unfold decimal
    rw [htext]
    split
    · rename_i cs heq
      exact absurd heq (hsign cs)
    · rw [digits_toDigits, Option.map_some]
  | negSucc n =>
    have htext : (toString (Int.negSucc n)).toList = '-' :: Nat.toDigits 10 (n + 1) := by
      show ("-" ++ Nat.repr (n + 1)).toList = _
      simp
    unfold decimal
    rw [htext]
    show (digits (Nat.toDigits 10 (n + 1))).map _ = _
    rw [digits_toDigits]
    rfl

/-- Decimal integers, no floats, and values that are all alike. -/
instance : Inhabited Builtins :=
  ⟨{ int := decimal, float := fun _ => none, int_str := decimal_toString,
     dumps := fun _ => "", dumpsElem := fun _ => "", dumpsKey := fun _ => "",
     eq := fun _ _ => true }⟩

/-- A value after flattening. -/
inductive Flat
  | None
  | text (s : String)
  | int (n : Int)
  | float (x : Float)
  | bool (b : Bool)
  | list (items : List Flat)
  | dict (entries : List (Option String × Flat))

variable (B : Builtins)

/-- The flattening of a text by its type. -/
def flattenText (t : BasicType) : Option String → Option Flat
  | none => some .None
  | some s =>
    if t.flattensToInt then (B.int s).map .int
    else if t.flattensToFloat then (B.float s).map .float
    else if t = .bool then
      if s = "false" then some (.bool false)
      else if s = "true" then some (.bool true)
      else some (.text s)
    else some (.text s)

mutual

/-- `OpServerUtils.uve_attr_flatten`. -/
def flatten : AttrValue → Option Flat
  | .basic _ t s => flattenText B t s
  | .struct _ _ members => (flattenMembers members).map .dict
  | .list _ _ _ items => (flattenElems items).map .list
  | .textMap _ entries =>
    -- str() of a missing text is the text `None`.
    some (.dict (entries.map fun e => (e.1, .text (e.2.getD "None"))))
  | .structMap _ _ entries => (flattenEntries entries).map .dict

def flattenMembers : List (String × AttrValue) → Option (List (Option String × Flat))
  | [] => some []
  | (k, v) :: rest => do
    let f ← flatten v
    let fs ← flattenMembers rest
    some ((some k, f) :: fs)

def flattenElem : Elem → Option Flat
  | .text none => some .None
  | .text (some s) => some (.text s)
  | .struct [] => some .None
  | .struct (m :: members) => do
    let f ← flatten m.2
    let fs ← flattenMembers members
    some (.dict ((some m.1, f) :: fs))

def flattenElems : List Elem → Option (List Flat)
  | [] => some []
  | e :: rest => do
    let f ← flattenElem e
    let fs ← flattenElems rest
    some (f :: fs)

def flattenEntries :
    List (Option String × List (String × AttrValue)) → Option (List (Option String × Flat))
  | [] => some []
  | (k, members) :: rest => do
    let f ← flattenMembers members
    let fs ← flattenEntries rest
    some ((k, .dict f) :: fs)

end

-- ---------------------------------------------------------------------------
-- What flattening reads
-- ---------------------------------------------------------------------------

mutual

/-- The typed texts inside a value, at any depth. -/
def AttrValue.leaves : AttrValue → List (BasicType × Option String)
  | .basic _ t s => [(t, s)]
  | .struct _ _ members => leavesMembers members
  | .list _ _ _ items => leavesElems items
  | .textMap .. => []
  | .structMap _ _ entries => leavesEntries entries

def leavesMembers : List (String × AttrValue) → List (BasicType × Option String)
  | [] => []
  | (_, v) :: rest => v.leaves ++ leavesMembers rest

def Elem.leaves : Elem → List (BasicType × Option String)
  | .text _ => []
  | .struct members => leavesMembers members

def leavesElems : List Elem → List (BasicType × Option String)
  | [] => []
  | e :: rest => e.leaves ++ leavesElems rest

def leavesEntries :
    List (Option String × List (String × AttrValue)) → List (BasicType × Option String)
  | [] => []
  | (_, members) :: rest => leavesMembers members ++ leavesEntries rest

end

/-- The type reads the text. -/
def Reads (leaf : BasicType × Option String) : Prop :=
  ∀ s, leaf.2 = some s → (leaf.1.flattensToInt = true → (B.int s).isSome) ∧
    (leaf.1.flattensToFloat = true → (B.float s).isSome)

instance (leaf : BasicType × Option String) : Decidable (Reads B leaf) :=
  match leaf with
  | (_, none) => .isTrue fun _ h => nomatch h
  | (t, some s) => decidable_of_iff
      ((t.flattensToInt = true → (B.int s).isSome) ∧
        (t.flattensToFloat = true → (B.float s).isSome))
      ⟨fun h _ hs => Option.some.inj hs ▸ h, fun h => h s rfl⟩

/-- Every text inside the value is one its type reads. -/
def Readable (leaves : List (BasicType × Option String)) : Prop := ∀ leaf ∈ leaves, Reads B leaf

instance (leaves : List (BasicType × Option String)) : Decidable (Readable B leaves) :=
  inferInstanceAs (Decidable (∀ leaf ∈ leaves, Reads B leaf))

variable {B}

@[simp] theorem readable_nil : Readable B [] := by simp [Readable]

@[simp] theorem readable_append (l l' : List (BasicType × Option String)) :
    Readable B (l ++ l') ↔ Readable B l ∧ Readable B l' := by
  simp only [Readable, List.mem_append]
  exact ⟨fun h => ⟨fun x hx => h x (.inl hx), fun x hx => h x (.inr hx)⟩,
    fun h x hx => hx.elim (h.1 x) (h.2 x)⟩

/-- The text of an integer is read by an integer's type. -/
theorem reads_toString {t : BasicType} (ht : t.isCounter = true) (n : Int) :
    Reads B (t, some (toString n)) := by
  intro s hs
  obtain rfl := Option.some.inj hs
  refine ⟨fun _ => by rw [B.int_str]; rfl, fun hfloat => ?_⟩
  rw [BasicType.flattensToFloat_of_isCounter ht] at hfloat
  cases hfloat

theorem flattenText_isSome_iff (t : BasicType) (s : Option String) :
    (flattenText B t s).isSome ↔ Reads B (t, s) := by
  cases s with
  | none => simp [flattenText, Reads]
  | some s =>
    have hread : Reads B (t, some s) ↔ (t.flattensToInt = true → (B.int s).isSome) ∧
        (t.flattensToFloat = true → (B.float s).isSome) :=
      ⟨fun h => h s rfl, fun h s' hs' => Option.some.inj hs' ▸ h⟩
    rw [hread, flattenText]
    by_cases hint : t.flattensToInt = true
    · have hfloat := BasicType.flattensToFloat_of_isCounter
        (BasicType.isCounter_of_flattensToInt hint)
      rw [if_pos hint, Option.isSome_map]
      simp [hint, hfloat]
    · rw [if_neg hint]
      by_cases hfloat : t.flattensToFloat = true
      · rw [if_pos hfloat, Option.isSome_map]
        simp [hint, hfloat]
      · -- The remaining types read every text.
        rw [if_neg hfloat]
        split_ifs <;> simp [hint, hfloat]

/-- Two results joined: both are needed. -/
theorem isSome_bind₂ {α β γ : Type} (a : Option α) (b : Option β) (f : α → β → γ) :
    (do let x ← a; let y ← b; some (f x y)).isSome ↔ a.isSome ∧ b.isSome := by
  cases a <;> cases b <;> simp

mutual

/-- Flattening fails exactly on a text that its type does not read. -/
theorem flatten_isSome_iff : ∀ v : AttrValue, (flatten B v).isSome ↔ Readable B v.leaves
  | .basic _ t s => by
    rw [flatten, flattenText_isSome_iff]
    simp [Readable, AttrValue.leaves]
  | .struct _ _ members => by
    rw [flatten, Option.isSome_map, flattenMembers_isSome_iff members, AttrValue.leaves]
  | .list _ _ _ items => by
    rw [flatten, Option.isSome_map, flattenElems_isSome_iff items, AttrValue.leaves]
  | .textMap _ _ => by simp [flatten, AttrValue.leaves]
  | .structMap _ _ entries => by
    rw [flatten, Option.isSome_map, flattenEntries_isSome_iff entries, AttrValue.leaves]

theorem flattenMembers_isSome_iff : ∀ members : List (String × AttrValue),
    (flattenMembers B members).isSome ↔ Readable B (leavesMembers members)
  | [] => by simp [flattenMembers, leavesMembers]
  | (k, v) :: rest => by
    rw [flattenMembers, isSome_bind₂, flatten_isSome_iff v, flattenMembers_isSome_iff rest,
      leavesMembers, readable_append]

theorem flattenElem_isSome_iff : ∀ e : Elem, (flattenElem B e).isSome ↔ Readable B e.leaves
  | .text none => by simp [flattenElem, Elem.leaves]
  | .text (some _) => by simp [flattenElem, Elem.leaves]
  | .struct [] => by simp [flattenElem, Elem.leaves, leavesMembers]
  | .struct ((k, v) :: members) => by
    rw [flattenElem, isSome_bind₂, flatten_isSome_iff v, flattenMembers_isSome_iff members,
      Elem.leaves, leavesMembers, readable_append]

theorem flattenElems_isSome_iff : ∀ items : List Elem,
    (flattenElems B items).isSome ↔ Readable B (leavesElems items)
  | [] => by simp [flattenElems, leavesElems]
  | e :: rest => by
    rw [flattenElems, isSome_bind₂, flattenElem_isSome_iff e, flattenElems_isSome_iff rest,
      leavesElems, readable_append]

theorem flattenEntries_isSome_iff : ∀ entries : List (Option String × List (String × AttrValue)),
    (flattenEntries B entries).isSome ↔ Readable B (leavesEntries entries)
  | [] => by simp [flattenEntries, leavesEntries]
  | (k, members) :: rest => by
    rw [flattenEntries, isSome_bind₂, flattenMembers_isSome_iff members,
      flattenEntries_isSome_iff rest, leavesEntries, readable_append]

end

theorem readable_members {members : Members} :
    Readable B (leavesMembers members) ↔ ∀ m ∈ members, Readable B m.2.leaves := by
  induction members with
  | nil => simp [leavesMembers]
  | cons m rest ih => rw [leavesMembers, readable_append, ih, List.forall_mem_cons]

theorem readable_elems {items : List Elem} :
    Readable B (leavesElems items) ↔ ∀ e ∈ items, Readable B e.leaves := by
  induction items with
  | nil => simp [leavesElems]
  | cons e rest ih => rw [leavesElems, readable_append, ih, List.forall_mem_cons]

theorem readable_entries {entries : List (Option String × Members)} :
    Readable B (leavesEntries entries) ↔ ∀ e ∈ entries, Readable B (leavesMembers e.2) := by
  induction entries with
  | nil => simp [leavesEntries]
  | cons e rest ih => rw [leavesEntries, readable_append, ih, List.forall_mem_cons]

end TfAnalytics.OpServer
