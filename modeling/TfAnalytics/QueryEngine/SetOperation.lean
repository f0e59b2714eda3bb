import Mathlib.Order.Defs.LinearOrder

/-!
# Query engine — set operations on WHERE results

`set_operation.cc`: the comparison of result units, and `op_and` and `op_or`
on result vectors. `op_or` folds `std::set_union` over its inputs.

`setUnion` keeps every unit of its first argument as it is, and drops a unit of
the second only for an equivalent one of the first. So `op_or` is the union of
its inputs up to equivalence (`op_or_isUnion`), sorted or not.

On sorted ranges of a strict total order the two algorithms take the larger and
the smaller multiplicity of every element (`count_setUnion`,
`count_setIntersection`), so their results are determined by that
(`SortedIn.ext`).
-/

namespace TfAnalytics.QueryEngine

/-- `query_result_unit_t`. -/
structure QueryResultUnit (ν : Type) where
  timestamp : Nat
  info : List ν

section

variable {α : Type} (less : α → α → Bool)

/-- The loop of `std::set_union` for one element of the first range; `rest` is
the union of the elements after it with what it is given. -/
def unionFrom (a : α) (as : List α) (rest : List α → List α) : List α → List α
  | [] => a :: as
  | b :: bs =>
    if less a b then a :: rest (b :: bs)
    else if less b a then b :: unionFrom a as rest bs
    else a :: rest bs

/-- `std::set_union`. -/
def setUnion : List α → List α → List α
  | [] => id
  | a :: as => unionFrom less a as (setUnion as)

/-- The loop of `std::set_intersection` for one element of the first range. -/
def intersectFrom (a : α) (rest : List α → List α) : List α → List α
  | [] => []
  | b :: bs =>
    if less a b then rest (b :: bs)
    else if less b a then intersectFrom a rest bs
    else a :: rest bs

/-- `std::set_intersection`. -/
def setIntersection : List α → List α → List α
  | [] => fun _ => []
  | a :: as => intersectFrom less a (setIntersection as)

/-- Neither comes first. -/
def Equivalent (a b : α) : Prop := less a b = false ∧ less b a = false

variable {less}

theorem mem_of_mem_setUnion {as bs : List α} {x : α} (h : x ∈ setUnion less as bs) :
    x ∈ as ∨ x ∈ bs := by
  induction as generalizing bs with
  | nil => exact Or.inr h
  | cons a as ih =>
    induction bs with
    | nil => exact Or.inl h
    | cons b bs ihb =>
      have h : x ∈ unionFrom less a as (setUnion less as) (b :: bs) := h
      rw [unionFrom] at h
      split at h
      · rcases List.mem_cons.mp h with rfl | h
        · exact Or.inl (List.mem_cons_self ..)
        · exact (ih h).imp (List.mem_cons_of_mem _) id
      · split at h
        · rcases List.mem_cons.mp h with rfl | h
          · exact Or.inr (List.mem_cons_self ..)
          · exact (ihb h).imp id (List.mem_cons_of_mem _)
        · rcases List.mem_cons.mp h with rfl | h
          · exact Or.inl (List.mem_cons_self ..)
          · exact (ih h).imp (List.mem_cons_of_mem _) (List.mem_cons_of_mem _)

theorem mem_setUnion_left {as : List α} {x : α} (hx : x ∈ as) (bs : List α) :
    x ∈ setUnion less as bs := by
  induction as generalizing bs with
  | nil => exact absurd hx (by simp)
  | cons a as ih =>
    induction bs with
    | nil => exact hx
    | cons b bs ihb =>
      show x ∈ unionFrom less a as (setUnion less as) (b :: bs)
      rw [unionFrom]
      split
      · rcases List.mem_cons.mp hx with rfl | hx
        · exact List.mem_cons_self ..
        · exact List.mem_cons_of_mem _ (ih hx _)
      · split
        · exact List.mem_cons_of_mem _ ihb
        · rcases List.mem_cons.mp hx with rfl | hx
          · exact List.mem_cons_self ..
          · exact List.mem_cons_of_mem _ (ih hx _)

theorem mem_setUnion_right {as bs : List α} {x : α} (hx : x ∈ bs) :
    x ∈ setUnion less as bs ∨ ∃ a ∈ as, Equivalent less a x := by
  induction as generalizing bs with
  | nil => exact Or.inl hx
  | cons a as ih =>
    have hrest : ∀ {l : List α}, x ∈ l → x ∈ setUnion less as l ∨ ∃ a' ∈ a :: as, Equivalent less a' x :=
      fun hl => (ih hl).imp id fun ⟨a', ha', heq⟩ => ⟨a', List.mem_cons_of_mem _ ha', heq⟩
    induction bs with
    | nil => exact absurd hx (by simp)
    | cons b bs ihb =>
      show x ∈ unionFrom less a as (setUnion less as) (b :: bs) ∨ _
      rw [unionFrom]
      split
      · exact (hrest hx).imp (List.mem_cons_of_mem _) id
      · split
        · rcases List.mem_cons.mp hx with rfl | hx
          · exact Or.inl (List.mem_cons_self ..)
          · exact (ihb hx).imp (List.mem_cons_of_mem _) id
        · rename_i hab hba
          rcases List.mem_cons.mp hx with rfl | hx
          · refine Or.inr ⟨a, List.mem_cons_self .., ?_, ?_⟩
            · simpa using hab
            · simpa using hba
          · exact (hrest hx).imp (List.mem_cons_of_mem _) id

end

-- ---------------------------------------------------------------------------
-- Sorted ranges
-- ---------------------------------------------------------------------------

section Sorted

variable {α : Type} {less : α → α → Bool} {P : α → Prop}

/-- On the elements of `P`, `less` is a strict total order. -/
structure StrictTotalOn (less : α → α → Bool) (P : α → Prop) : Prop where
  irrefl : ∀ a, P a → less a a = false
  trans : ∀ a b c, P a → P b → P c → less a b = true → less b c = true → less a c = true
  total : ∀ a b, P a → P b → less a b = false → less b a = false → a = b

/-- A range of elements of `P` in which no element comes before an earlier one. -/
structure SortedIn (less : α → α → Bool) (P : α → Prop) (l : List α) : Prop where
  sorted : l.Pairwise fun a b => less b a = false
  all : ∀ a ∈ l, P a

theorem SortedIn.tail {a : α} {l : List α} (h : SortedIn less P (a :: l)) : SortedIn less P l :=
  ⟨(List.pairwise_cons.mp h.sorted).2, fun b hb => h.all b (List.mem_cons_of_mem a hb)⟩

theorem SortedIn.cons {a : α} {l : List α} (h : SortedIn less P l) (ha : P a)
    (hle : ∀ b ∈ l, less b a = false) : SortedIn less P (a :: l) :=
  ⟨List.pairwise_cons.mpr ⟨hle, h.sorted⟩, fun b hb => (List.mem_cons.mp hb).elim (· ▸ ha) (h.all b)⟩

/-- What comes before the head is smaller than everything in the range. -/
theorem SortedIn.not_less {a b : α} {l : List α} (hord : StrictTotalOn less P)
    (h : SortedIn less P (b :: l)) (ha : P a) (hab : less a b = true) :
    ∀ x ∈ b :: l, less x a = false ∧ x ≠ a := by
  have hb : P b := h.all b List.mem_cons_self
  intro x hx
  have hxP : P x := h.all x hx
  have hxb : less x b = false := by
    rcases List.mem_cons.mp hx with rfl | hx
    · exact hord.irrefl x hb
    · exact (List.pairwise_cons.mp h.sorted).1 x hx
  constructor
  · by_contra hxa
    have := hord.trans x a b hxP ha hb (by simpa using hxa) hab
    rw [hxb] at this
    cases this
  · rintro rfl
    rw [hxb] at hab
    cases hab

theorem sortedIn_setUnion (hord : StrictTotalOn less P) {as bs : List α}
    (has : SortedIn less P as) (hbs : SortedIn less P bs) :
    SortedIn less P (setUnion less as bs) := by
  induction as generalizing bs with
  | nil => exact hbs
  | cons a as ih =>
    have ha : P a := has.all a List.mem_cons_self
    have hge : ∀ x ∈ as, less x a = false := (List.pairwise_cons.mp has.sorted).1
    induction bs with
    | nil => exact has
    | cons b bs ihb =>
      have hb : P b := hbs.all b List.mem_cons_self
      show SortedIn less P (unionFrom less a as (setUnion less as) (b :: bs))
      rw [unionFrom]
      split
      · rename_i hab
        refine (ih has.tail hbs).cons ha fun x hx => ?_
        rcases mem_of_mem_setUnion hx with hx | hx
        · exact hge x hx
        · exact (hbs.not_less hord ha hab x hx).1
      · split
        · rename_i hba
          refine (ihb hbs.tail).cons hb fun x hx => ?_
          have hx : x ∈ setUnion less (a :: as) bs := hx
          rcases mem_of_mem_setUnion hx with hx | hx
          · exact (has.not_less hord hb hba x hx).1
          · exact (List.pairwise_cons.mp hbs.sorted).1 x hx
        · rename_i hab hba
          obtain rfl := hord.total a b ha hb (by simpa using hab) (by simpa using hba)
          refine (ih has.tail hbs.tail).cons ha fun x hx => ?_
          rcases mem_of_mem_setUnion hx with hx | hx
          · exact hge x hx
          · exact (List.pairwise_cons.mp hbs.sorted).1 x hx

theorem mem_of_mem_setIntersection {as bs : List α} {x : α} (h : x ∈ setIntersection less as bs) :
    x ∈ as := by
  induction as generalizing bs with
  | nil => exact h
  | cons a as ih =>
    induction bs with
    | nil => exact absurd h List.not_mem_nil
    | cons b bs ihb =>
      have h : x ∈ intersectFrom less a (setIntersection less as) (b :: bs) := h
      rw [intersectFrom] at h
      split at h
      · exact List.mem_cons_of_mem a (ih h)
      · split at h
        · exact ihb h
        · rcases List.mem_cons.mp h with rfl | h
          · exact List.mem_cons_self
          · exact List.mem_cons_of_mem a (ih h)

theorem sortedIn_setIntersection {as bs : List α} (has : SortedIn less P as) :
    SortedIn less P (setIntersection less as bs) := by
  induction as generalizing bs with
  | nil => exact has
  | cons a as ih =>
    have hge : ∀ x ∈ as, less x a = false := (List.pairwise_cons.mp has.sorted).1
    induction bs with
    | nil => exact ⟨List.Pairwise.nil, fun _ hx => absurd hx List.not_mem_nil⟩
    | cons b bs ihb =>
      show SortedIn less P (intersectFrom less a (setIntersection less as) (b :: bs))
      rw [intersectFrom]
      split
      · exact ih has.tail
      · split
        · exact ihb
        · exact (ih has.tail).cons (has.all a List.mem_cons_self)
            fun x hx => hge x (mem_of_mem_setIntersection hx)

variable [DecidableEq α]

/-- What comes before the head is not in the range. -/
theorem SortedIn.count_eq_zero {a b : α} {l : List α} (hord : StrictTotalOn less P)
    (h : SortedIn less P (b :: l)) (ha : P a) (hab : less a b = true) : (b :: l).count a = 0 :=
  List.count_eq_zero.mpr fun hmem => (h.not_less hord ha hab a hmem).2 rfl

/-- The union keeps the larger of the two multiplicities. -/
theorem count_setUnion (hord : StrictTotalOn less P) {as bs : List α} (has : SortedIn less P as)
    (hbs : SortedIn less P bs) (x : α) :
    (setUnion less as bs).count x = max (as.count x) (bs.count x) := by
  induction as generalizing bs with
  | nil => simp [setUnion]
  | cons a as ih =>
    have ha : P a := has.all a List.mem_cons_self
    induction bs with
    | nil =>
      show (a :: as).count x = _
      simp
    | cons b bs ihb =>
      have hb : P b := hbs.all b List.mem_cons_self
      show (unionFrom less a as (setUnion less as) (b :: bs)).count x = _
      rw [unionFrom]
      split
      · rename_i hab
        rw [List.count_cons, ih has.tail hbs, List.count_cons (b := a)]
        by_cases hx : a = x
        · have hnone : (b :: bs).count x = 0 := hx ▸ hbs.count_eq_zero hord ha hab
          omega
        · simp [hx]
      · split
        · rename_i hba
          have ihb : (unionFrom less a as (setUnion less as) bs).count x = _ := ihb hbs.tail
          rw [List.count_cons, ihb, List.count_cons (l := bs)]
          by_cases hx : b = x
          · have hnone : (a :: as).count x = 0 := hx ▸ has.count_eq_zero hord hb hba
            omega
          · simp [hx]
        · rename_i hab hba
          obtain rfl := hord.total a b ha hb (by simpa using hab) (by simpa using hba)
          rw [List.count_cons, ih has.tail hbs.tail, List.count_cons, List.count_cons]
          omega

/-- The intersection keeps the smaller of the two multiplicities. -/
theorem count_setIntersection (hord : StrictTotalOn less P) {as bs : List α}
    (has : SortedIn less P as) (hbs : SortedIn less P bs) (x : α) :
    (setIntersection less as bs).count x = min (as.count x) (bs.count x) := by
  induction as generalizing bs with
  | nil => simp [setIntersection]
  | cons a as ih =>
    have ha : P a := has.all a List.mem_cons_self
    induction bs with
    | nil =>
      show ([] : List α).count x = _
      simp
    | cons b bs ihb =>
      have hb : P b := hbs.all b List.mem_cons_self
      show (intersectFrom less a (setIntersection less as) (b :: bs)).count x = _
      rw [intersectFrom]
      split
      · rename_i hab
        rw [ih has.tail hbs, List.count_cons (b := a)]
        by_cases hx : a = x
        · have hnone : (b :: bs).count x = 0 := hx ▸ hbs.count_eq_zero hord ha hab
          omega
        · simp [hx]
      · split
        · rename_i hba
          have ihb : (intersectFrom less a (setIntersection less as) bs).count x = _ := ihb hbs.tail
          rw [ihb, List.count_cons (l := bs)]
          by_cases hx : b = x
          · have hnone : (a :: as).count x = 0 := hx ▸ has.count_eq_zero hord hb hba
            omega
          · simp [hx]
        · rename_i hab hba
          obtain rfl := hord.total a b ha hb (by simpa using hab) (by simpa using hba)
          rw [List.count_cons, ih has.tail hbs.tail, List.count_cons, List.count_cons]
          omega

/-- Sorted ranges with the same multiplicities are equal. -/
theorem SortedIn.ext (hord : StrictTotalOn less P) {as bs : List α} (has : SortedIn less P as)
    (hbs : SortedIn less P bs) (h : ∀ x, as.count x = bs.count x) : as = bs :=
  List.Perm.eq_of_pairwise
    (fun a b ha hb hab hba => hord.total a b (has.all a ha) (hbs.all b hb) hba hab)
    has.sorted hbs.sorted (List.perm_iff_count.mpr h)

end Sorted

-- ---------------------------------------------------------------------------
-- Result vectors
-- ---------------------------------------------------------------------------

section

variable {ν : Type} [LinearOrder ν]

/-- The loop over the two `info` vectors: it stops at the end of the shorter. -/
def infoLess : List ν → List ν → Bool
  | x :: xs, y :: ys => if x < y then true else if y < x then false else infoLess xs ys
  | _, _ => false

/-- `query_result_unit_t::operator<`. -/
def QueryResultUnit.less (a b : QueryResultUnit ν) : Bool :=
  if a.timestamp = b.timestamp then infoLess a.info b.info else a.timestamp < b.timestamp

abbrev WhereResultT (ν : Type) : Type := List (QueryResultUnit ν)

/-- `SetOperationUnit::op_and`; there is no first input to copy from an empty
vector. -/
def op_and : List (WhereResultT ν) → Option (WhereResultT ν)
  | [] => none
  | res :: inp => some (inp.foldl (setIntersection QueryResultUnit.less) res)

/-- `SetOperationUnit::op_or`. -/
def op_or : List (WhereResultT ν) → Option (WhereResultT ν)
  | [] => none
  | res :: inp => some (inp.foldl (setUnion QueryResultUnit.less) res)

/-- `res` has the units of the inputs and, up to equivalence, all of them. -/
structure IsUnion (res : WhereResultT ν) (inp : List (WhereResultT ν)) : Prop where
  sound : ∀ x ∈ res, ∃ l ∈ inp, x ∈ l
  complete : ∀ l ∈ inp, ∀ x ∈ l, ∃ y ∈ res, y = x ∨ Equivalent QueryResultUnit.less y x

theorem foldl_setUnion_keeps {res : WhereResultT ν} {inp : List (WhereResultT ν)}
    {x : QueryResultUnit ν} (hx : x ∈ res) :
    x ∈ inp.foldl (setUnion QueryResultUnit.less) res := by
  induction inp generalizing res with
  | nil => exact hx
  | cons l inp ih => exact ih (mem_setUnion_left hx l)

theorem foldl_setUnion_isUnion (res : WhereResultT ν) (inp : List (WhereResultT ν)) :
    IsUnion (inp.foldl (setUnion QueryResultUnit.less) res) (res :: inp) := by
  induction inp generalizing res with
  | nil =>
    refine ⟨fun x hx => ⟨res, List.mem_cons_self .., hx⟩, fun l hl x hx => ?_⟩
    rw [List.mem_singleton.mp hl] at hx
    exact ⟨x, hx, Or.inl rfl⟩
  | cons l inp ih =>
    have h := ih (setUnion QueryResultUnit.less res l)
    rw [List.foldl_cons]
    refine ⟨fun x hx => ?_, fun l' hl' x hx => ?_⟩
    · obtain ⟨l', hl', hx'⟩ := h.sound x hx
      rcases List.mem_cons.mp hl' with rfl | hl'
      · rcases mem_of_mem_setUnion hx' with hx' | hx'
        · exact ⟨res, List.mem_cons_self .., hx'⟩
        · exact ⟨l, by simp, hx'⟩
      · exact ⟨l', by simp [hl'], hx'⟩
    · rcases List.mem_cons.mp hl' with rfl | hl'
      · exact ⟨x, foldl_setUnion_keeps (mem_setUnion_left hx l), Or.inl rfl⟩
      rcases List.mem_cons.mp hl' with rfl | hl'
      · -- dropped for an equivalent unit, which then stays
        have hcases : x ∈ setUnion QueryResultUnit.less res l' ∨
            ∃ a ∈ res, Equivalent QueryResultUnit.less a x := mem_setUnion_right hx
        rcases hcases with hx | ⟨a, ha, heq⟩
        · exact ⟨x, foldl_setUnion_keeps hx, Or.inl rfl⟩
        · exact ⟨a, foldl_setUnion_keeps (mem_setUnion_left ha _), Or.inr heq⟩
      · exact h.complete l' (List.mem_cons_of_mem _ hl') x hx

/-- What `op_or` computes from a non-empty vector is the union. -/
theorem op_or_isUnion {inp : List (WhereResultT ν)} {res : WhereResultT ν}
    (h : op_or inp = some res) : IsUnion res inp := by
  cases inp with
  | nil => cases h
  | cons l inp =>
    injection h with h
    exact h ▸ foldl_setUnion_isUnion l inp

theorem op_and_eq_some {inp : List (WhereResultT ν)} (h : inp ≠ []) : ∃ res, op_and inp = some res := by
  cases inp with
  | nil => exact absurd rfl h
  | cons l inp => exact ⟨_, rfl⟩

theorem op_or_eq_some {inp : List (WhereResultT ν)} (h : inp ≠ []) : ∃ res, op_or inp = some res := by
  cases inp with
  | nil => exact absurd rfl h
  | cons l inp => exact ⟨_, rfl⟩

end

end TfAnalytics.QueryEngine
