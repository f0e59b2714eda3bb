import TfAnalytics.Lib.JsonValue

/-!
# Alarm generator — the operations of alarm rules

`_compare_operand_vals` (alarmgen.py) decides a condition on two values. A text that is JSON
counts as what it says, on both sides. `<`, `<=`, `>` and `>=` put null below everything; `range`
does not expect it.

`Holds` is what an operation says of two values, and `Comparable` what it asks of their types.

* `compare_spec`: comparable values are compared, and the result is what the operation says;
* `compare_error`: the comparison of other values raises.
-/

namespace TfAnalytics.OpServer.AlarmProcessor

open TfAnalytics.Lib

-- ---------------------------------------------------------------------------
-- The comparison
-- ---------------------------------------------------------------------------

inductive AlarmOperation
  | eq | ne | lt | le | gt | ge | «in» | not_in | range | size_eq | size_ne
  deriving DecidableEq

def operationOf (operation : String) : Option AlarmOperation :=
  [("==", .eq), ("!=", .ne), ("<", .lt), ("<=", .le), (">", .gt), (">=", .ge), ("in", .«in»),
    ("not in", .not_in), ("range", .range), ("size==", .size_eq), ("size!=", .size_ne)].lookup
      operation

/-- Any other operation gives `None`, which is no match. -/
def compare_operand_vals (J : Loads) (val1 val2 : JsonValue) (operation : String) :
    Except PyError Bool :=
  let val1 := J.decode val1
  let val2 := J.decode val2
  match operationOf operation with
  | some .eq => .ok (val1.eq val2)
  | some .ne => .ok (!val1.eq val2)
  | some .lt =>
    if val1.isNone && val2.isNone then .ok false
    else if val1.isNone then .ok true
    else if val2.isNone then .ok false
    else val1.lt val2
  | some .le =>
    if val1.isNone then .ok true
    else if val2.isNone then .ok false
    else val1.le val2
  | some .gt =>
    if val1.isNone && val2.isNone then .ok false
    else if val2.isNone then .ok true
    else if val1.isNone then .ok false
    else val1.gt val2
  | some .ge =>
    if val2.isNone then .ok true
    else if val1.isNone then .ok false
    else val1.ge val2
  | some .«in» =>
    match val2 with
    | .list elems => .ok (elems.any (·.eq val1))
    | _ => .ok false
  | some .not_in =>
    match val2 with
    | .list elems => .ok (!elems.any (·.eq val1))
    | _ => .ok true
  | some .range => do
    -- the second bound is read only if the value is not below the first
    if ← (← val2.getItem 0).le val1 then val1.le (← val2.getItem 1) else return false
  | some .size_eq =>
    match val1 with
    | .list elems => .ok ((JsonValue.num elems.length).eq val2)
    | _ => .ok false
  | some .size_ne =>
    match val1 with
    | .list elems => .ok (!(JsonValue.num elems.length).eq val2)
    | _ => .ok true
  | none => .ok false

-- ---------------------------------------------------------------------------
-- What it says
-- ---------------------------------------------------------------------------

/-- An operation on two values. -/
def Holds (operation : String) (v w : JsonValue) : Prop :=
  match operationOf operation with
  | some .eq => v.eq w = true
  | some .ne => v.eq w = false
  | some .lt => v = .null ∧ w ≠ .null ∨ v.order w = .ok .lt
  | some .le => v = .null ∨ v.AtMost w
  | some .gt => w = .null ∧ v ≠ .null ∨ v.order w = .ok .gt
  | some .ge => w = .null ∨ v.AtLeast w
  | some .«in» => ∃ elems, w = .list elems ∧ ∃ e ∈ elems, e.eq v = true
  | some .not_in => ¬ ∃ elems, w = .list elems ∧ ∃ e ∈ elems, e.eq v = true
  | some .range =>
    ∃ lo hi, w.getItem 0 = .ok lo ∧ w.getItem 1 = .ok hi ∧ lo.AtMost v ∧ v.AtMost hi
  | some .size_eq => ∃ elems, v = .list elems ∧ (JsonValue.num elems.length).eq w = true
  | some .size_ne => ¬ ∃ elems, v = .list elems ∧ (JsonValue.num elems.length).eq w = true
  | none => False

/-- The types go together: a comparison needs an order, and a range two bounds. -/
def Comparable (operation : String) (v w : JsonValue) : Prop :=
  match operationOf operation with
  | some .lt | some .le | some .gt | some .ge => v = .null ∨ w = .null ∨ v.Ordered w
  | some .range => ∃ lo, w.getItem 0 = .ok lo ∧ lo.Ordered v ∧
      (lo.AtMost v → ∃ hi, w.getItem 1 = .ok hi ∧ v.Ordered hi)
  | _ => True

variable {J : Loads}

theorem compare_spec {operation : String} {v w : JsonValue}
    (h : Comparable operation (J.decode v) (J.decode w)) :
    ∃ b, compare_operand_vals J v w operation = .ok b ∧
      (b = true ↔ Holds operation (J.decode v) (J.decode w)) := by
  unfold compare_operand_vals Holds
  unfold Comparable at h
  generalize J.decode v = v at h ⊢
  generalize J.decode w = w at h ⊢
  generalize operationOf operation = op at h ⊢
  rcases op with _ | op
  · exact ⟨false, rfl, by simp⟩
  cases op with
  | eq => exact ⟨_, rfl, Iff.rfl⟩
  | ne => exact ⟨_, rfl, by simp⟩
  | lt =>
    rcases eq_or_ne v .null with rfl | hv
    · rcases eq_or_ne w .null with rfl | hw
      · exact ⟨false, rfl, by simp [JsonValue.null_order]⟩
      · exact ⟨true, by simp [JsonValue.isNone_null, JsonValue.isNone_eq_false hw], by simp [hw]⟩
    · rcases eq_or_ne w .null with rfl | hw
      · exact ⟨false, by simp [JsonValue.isNone_null, JsonValue.isNone_eq_false hv],
          by simp [hv, JsonValue.order_null]⟩
      · obtain ⟨b, hb, hiff⟩ := JsonValue.lt_spec ((h.resolve_left hv).resolve_left hw)
        exact ⟨b, by simpa [JsonValue.isNone_eq_false hv, JsonValue.isNone_eq_false hw] using hb,
          by simpa [hv] using hiff⟩
  | le =>
    rcases eq_or_ne v .null with rfl | hv
    · exact ⟨true, rfl, by simp⟩
    · rcases eq_or_ne w .null with rfl | hw
      · exact ⟨false, by simp [JsonValue.isNone_null, JsonValue.isNone_eq_false hv],
          by simp [hv, JsonValue.AtMost, JsonValue.order_null]⟩
      · obtain ⟨b, hb, hiff⟩ := JsonValue.le_spec ((h.resolve_left hv).resolve_left hw)
        exact ⟨b, by simpa [JsonValue.isNone_eq_false hv, JsonValue.isNone_eq_false hw] using hb,
          by simpa [hv] using hiff⟩
  | gt =>
    rcases eq_or_ne w .null with rfl | hw
    · rcases eq_or_ne v .null with rfl | hv
      · exact ⟨false, rfl, by simp [JsonValue.null_order]⟩
      · exact ⟨true, by simp [JsonValue.isNone_null, JsonValue.isNone_eq_false hv], by simp [hv]⟩
    · rcases eq_or_ne v .null with rfl | hv
      · exact ⟨false, by simp [JsonValue.isNone_null, JsonValue.isNone_eq_false hw],
          by simp [hw, JsonValue.null_order]⟩
      · obtain ⟨b, hb, hiff⟩ := JsonValue.gt_spec ((h.resolve_left hv).resolve_left hw)
        exact ⟨b, by simpa [JsonValue.isNone_eq_false hv, JsonValue.isNone_eq_false hw] using hb,
          by simpa [hw] using hiff⟩
  | ge =>
    rcases eq_or_ne w .null with rfl | hw
    · exact ⟨true, rfl, by simp⟩
    · rcases eq_or_ne v .null with rfl | hv
      · exact ⟨false, by simp [JsonValue.isNone_null, JsonValue.isNone_eq_false hw],
          by simp [hw, JsonValue.AtLeast, JsonValue.null_order]⟩
      · obtain ⟨b, hb, hiff⟩ := JsonValue.ge_spec ((h.resolve_left hv).resolve_left hw)
        exact ⟨b, by simpa [JsonValue.isNone_eq_false hv, JsonValue.isNone_eq_false hw] using hb,
          by simpa [hw] using hiff⟩
  | «in» =>
    cases w with
    | list elems => exact ⟨_, rfl, by simp⟩
    | _ => exact ⟨_, rfl, by simp⟩
  | not_in =>
    cases w with
    | list elems => exact ⟨_, rfl, by simp⟩
    | _ => exact ⟨_, rfl, by simp⟩
  | range =>
    obtain ⟨lo, hlo, hordered, hbound⟩ := h
    obtain ⟨b, hb, hiff⟩ := JsonValue.le_spec hordered
    dsimp only
    rw [hlo]
    change ∃ b', (lo.le v >>= fun below =>
      if below = true then w.getItem 1 >>= v.le else pure false) = .ok b' ∧ _
    rw [hb]
    cases b with
    | false =>
      have hbelow : ¬ lo.AtMost v := fun hatMost => Bool.false_ne_true (hiff.mpr hatMost)
      refine ⟨false, rfl, iff_of_false Bool.false_ne_true ?_⟩
      rintro ⟨lo', hi, hlo', -, hatMost, -⟩
      cases hlo'
      exact hbelow hatMost
    | true =>
      obtain ⟨hi, hhi, hordered'⟩ := hbound (hiff.mp rfl)
      obtain ⟨b', hb', hiff'⟩ := JsonValue.le_spec hordered'
      refine ⟨b', by rw [← hb']; simp [hhi, bind, Except.bind], hiff'.trans ⟨?_, ?_⟩⟩
      · exact fun hatMost => ⟨lo, hi, rfl, hhi, hiff.mp rfl, hatMost⟩
      · rintro ⟨lo', hi', -, hhi', -, hatMost⟩
        rw [hhi] at hhi'
        cases hhi'
        exact hatMost
  | size_eq =>
    cases v with
    | list elems => exact ⟨_, rfl, by simp⟩
    | _ => exact ⟨_, rfl, by simp⟩
  | size_ne =>
    cases v with
    | list elems => exact ⟨_, rfl, by simp⟩
    | _ => exact ⟨_, rfl, by simp⟩

theorem compare_error {operation : String} {v w : JsonValue}
    (h : ¬ Comparable operation (J.decode v) (J.decode w)) :
    ∃ e, compare_operand_vals J v w operation = .error e := by
  unfold compare_operand_vals
  unfold Comparable at h
  generalize J.decode v = v at h ⊢
  generalize J.decode w = w at h ⊢
  generalize operationOf operation = op at h ⊢
  rcases op with _ | op
  · exact absurd trivial h
  cases op with
  | eq | ne | «in» | not_in | size_eq | size_ne => exact absurd trivial h
  | lt | le | gt | ge =>
    obtain ⟨hv, hw, hordered⟩ : v ≠ .null ∧ w ≠ .null ∧ ¬ v.Ordered w := by
      simpa [not_or] using h
    simp only [JsonValue.isNone_eq_false hv, JsonValue.isNone_eq_false hw, Bool.and_self,
      Bool.false_eq_true, if_false]
    exact JsonValue.map_order_error hordered _
  | range =>
    dsimp only
    cases hlo : w.getItem 0 with
    | error e => exact ⟨e, rfl⟩
    | ok lo =>
      change ∃ e, (lo.le v >>= fun below =>
        if below = true then w.getItem 1 >>= v.le else pure false) = .error e
      by_cases hordered : lo.Ordered v
      · obtain ⟨b, hb, hiff⟩ := JsonValue.le_spec hordered
        -- the first bound is met, so that it is the second that cannot be compared
        have hbound : lo.AtMost v ∧ ∀ hi, w.getItem 1 = .ok hi → ¬ v.Ordered hi := by
          have hnot : ¬ (lo.AtMost v → ∃ hi, w.getItem 1 = .ok hi ∧ v.Ordered hi) := fun himp =>
            h ⟨lo, hlo, hordered, himp⟩
          push Not at hnot
          exact hnot
        rw [hb, hiff.mpr hbound.1]
        cases hhi : w.getItem 1 with
        | error e => exact ⟨e, rfl⟩
        | ok hi => exact JsonValue.map_order_error (hbound.2 hi hhi) _
      · obtain ⟨e, he⟩ := JsonValue.map_order_error hordered (· ≠ .gt)
        exact ⟨e, by rw [JsonValue.le, he]; rfl⟩

end TfAnalytics.OpServer.AlarmProcessor
