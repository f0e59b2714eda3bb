import Mathlib.Algebra.Order.Ring.Rat
import Mathlib.Data.String.Basic

/-!
# JSON in Python

The values that `json.loads` makes of a text, with Python's `==`, its order, and its subscripts.
Booleans are the integers 0 and 1, texts and lists have an order, and between values of different
kinds there is none: a comparison raises `TypeError`. Floats are finite, so that numbers are
rationals.

`Loads` is `json.loads` itself. All that is used of it is that what a text holds is smaller than
the text, so that reading texts inside of texts comes to an end.

* `lt_spec`, `le_spec`, `gt_spec`, `ge_spec`: the comparisons, where there is an order;
* `map_order_error`: they raise where there is none.
-/

namespace TfAnalytics.Lib

/-- The exceptions. -/
inductive PyError
  | AttributeError | IndexError | KeyError | TypeError | ValueError
  deriving DecidableEq

inductive JsonValue where
  | null
  | bool (b : Bool)
  | num (n : ℚ)
  | str (s : String)
  | list (elems : List JsonValue)
  | dict (items : List (String × JsonValue))

namespace JsonValue

-- ---------------------------------------------------------------------------
-- Equality and order
-- ---------------------------------------------------------------------------

/-- `True` and `False` count as 1 and 0. -/
def number? : JsonValue → Option ℚ
  | .bool b => some (if b then 1 else 0)
  | .num n => some n
  | _ => none

mutual

/-- `==`. The order of the items of a dictionary does not count. -/
def eq : JsonValue → JsonValue → Bool
  | .null, .null => true
  | .str a, .str b => a = b
  | .list a, .list b => eqList a b
  | .dict a, .dict b => a.length = b.length && eqItems a b
  | .bool a, w => w.number? = some (if a then 1 else 0)
  | .num a, w => w.number? = some a
  | _, _ => false

def eqList : List JsonValue → List JsonValue → Bool
  | [], [] => true
  | v :: a, w :: b => eq v w && eqList a b
  | _, _ => false

/-- Every item has an equal one under its key. -/
def eqItems : List (String × JsonValue) → List (String × JsonValue) → Bool
  | [], _ => true
  | (k, v) :: a, b =>
    (match b.lookup k with
      | some w => eq v w
      | none => false) && eqItems a b

end

mutual

/-- Which of two values comes first. -/
def order : JsonValue → JsonValue → Except PyError Ordering
  | .str a, .str b => .ok (compare a b)
  | .list a, .list b => orderList a b
  | v, w =>
    match v.number?, w.number? with
    | some a, some b => .ok (compare a b)
    | _, _ => .error .TypeError

/-- The first elements that are not equal decide. -/
def orderList : List JsonValue → List JsonValue → Except PyError Ordering
  | [], [] => .ok .eq
  | [], _ :: _ => .ok .lt
  | _ :: _, [] => .ok .gt
  | v :: a, w :: b => if eq v w then orderList a b else order v w

end

/-- `v < w`. -/
def lt (v w : JsonValue) : Except PyError Bool := (v.order w).map (· = .lt)

/-- `v <= w`. -/
def le (v w : JsonValue) : Except PyError Bool := (v.order w).map (· ≠ .gt)

/-- `v > w`. -/
def gt (v w : JsonValue) : Except PyError Bool := (v.order w).map (· = .gt)

/-- `v >= w`. -/
def ge (v w : JsonValue) : Except PyError Bool := (v.order w).map (· ≠ .lt)

/-- There is an order between the two. -/
def Ordered (v w : JsonValue) : Prop := ∃ o, v.order w = .ok o

/-- The first does not come after the second. -/
def AtMost (v w : JsonValue) : Prop := ∃ o, v.order w = .ok o ∧ o ≠ .gt

/-- The first does not come before the second. -/
def AtLeast (v w : JsonValue) : Prop := ∃ o, v.order w = .ok o ∧ o ≠ .lt

theorem null_order (w : JsonValue) : null.order w = .error .TypeError := by
  cases w <;> rfl

theorem order_null (v : JsonValue) : v.order null = .error .TypeError := by
  cases v <;> rfl

theorem map_order {v w : JsonValue} (h : v.Ordered w) (f : Ordering → Bool) :
    ∃ b, (v.order w).map f = .ok b ∧ (b = true ↔ ∃ o, v.order w = .ok o ∧ f o = true) := by
  obtain ⟨o, ho⟩ := h
  exact ⟨f o, by rw [ho]; rfl, by simp [ho]⟩

theorem map_order_error {v w : JsonValue} (h : ¬ v.Ordered w) (f : Ordering → Bool) :
    ∃ e, (v.order w).map f = .error e := by
  cases horder : v.order w with
  | error e => exact ⟨e, rfl⟩
  | ok o => exact absurd ⟨o, horder⟩ h

theorem lt_spec {v w : JsonValue} (h : v.Ordered w) :
    ∃ b, v.lt w = .ok b ∧ (b = true ↔ v.order w = .ok .lt) := by
  obtain ⟨b, hb, hiff⟩ := map_order h (· = .lt)
  exact ⟨b, hb, by simpa using hiff⟩

theorem le_spec {v w : JsonValue} (h : v.Ordered w) :
    ∃ b, v.le w = .ok b ∧ (b = true ↔ v.AtMost w) := by
  obtain ⟨b, hb, hiff⟩ := map_order h (· ≠ .gt)
  exact ⟨b, hb, by simpa [AtMost] using hiff⟩

theorem gt_spec {v w : JsonValue} (h : v.Ordered w) :
    ∃ b, v.gt w = .ok b ∧ (b = true ↔ v.order w = .ok .gt) := by
  obtain ⟨b, hb, hiff⟩ := map_order h (· = .gt)
  exact ⟨b, hb, by simpa using hiff⟩

theorem ge_spec {v w : JsonValue} (h : v.Ordered w) :
    ∃ b, v.ge w = .ok b ∧ (b = true ↔ v.AtLeast w) := by
  obtain ⟨b, hb, hiff⟩ := map_order h (· ≠ .lt)
  exact ⟨b, hb, by simpa [AtLeast] using hiff⟩

example : (list [num 1, str "a"]).order (list [bool true, str "b"]) = .ok .lt := by rfl

-- ---------------------------------------------------------------------------
-- Parts
-- ---------------------------------------------------------------------------

/-- `v is None`. -/
def isNone : JsonValue → Bool
  | .null => true
  | _ => false

theorem isNone_null : null.isNone = true := rfl

theorem isNone_eq_false {v : JsonValue} (h : v ≠ .null) : v.isNone = false := by
  cases v <;> first | rfl | exact absurd rfl h

/-- `v[i]` for an index. -/
def getItem : JsonValue → ℕ → Except PyError JsonValue
  | .list elems, i => elems[i]?.elim (.error .IndexError) .ok
  | .str s, i => s.toList[i]?.elim (.error .IndexError) fun c => .ok (.str (String.singleton c))
  | .dict _, _ => .error .KeyError
  | _, _ => .error .TypeError

/-- `v[k]` for a name. -/
def getKey : JsonValue → String → Except PyError JsonValue
  | .dict items, k => (items.lookup k).elim (.error .KeyError) .ok
  | _, _ => .error .TypeError

-- ---------------------------------------------------------------------------
-- Size
-- ---------------------------------------------------------------------------

mutual

/-- At most the length of a text that holds the value. -/
def weight : JsonValue → ℕ
  | .str s => s.length + 1
  | .list elems => weightList elems + 1
  | .dict items => weightItems items + 1
  | _ => 1

def weightList : List JsonValue → ℕ
  | [] => 0
  | v :: elems => weight v + weightList elems

def weightItems : List (String × JsonValue) → ℕ
  | [] => 0
  | (k, v) :: items => k.length + 1 + weight v + weightItems items

end

theorem weight_le_weightList {v : JsonValue} {elems : List JsonValue} (h : v ∈ elems) :
    v.weight ≤ weightList elems := by
  induction elems with
  | nil => cases h
  | cons w elems ih =>
    rw [weightList]
    rcases List.mem_cons.mp h with rfl | hmem
    · exact Nat.le_add_right _ _
    · exact le_trans (ih hmem) (Nat.le_add_left _ _)

theorem weight_lt_of_mem {v : JsonValue} {elems : List JsonValue} (h : v ∈ elems) :
    v.weight < (list elems).weight := by
  rw [weight]
  exact Nat.lt_succ_of_le (weight_le_weightList h)

end JsonValue

/-- `json.loads`: none is its `ValueError`. -/
structure Loads where
  loads : String → Option JsonValue
  shrinks : ∀ {s : String} {v : JsonValue}, loads s = some v → v.weight < (JsonValue.str s).weight

namespace Loads

/-- A text of JSON as what it says, any other value as it is. -/
def decode (J : Loads) (val : JsonValue) : JsonValue :=
  match val with
  | .str s => (J.loads s).getD val
  | _ => val

end Loads

end TfAnalytics.Lib
