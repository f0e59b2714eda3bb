import Mathlib.Order.Lattice
import Mathlib.Data.List.Sort

/-!
# Ordered maps

`std::map` as a value: the entries in key order, each key once. The order is a
field of the structure, so two maps with the same lookups are the same map
(`OrderedMap.ext_find`), as `operator==` on `std::map` has it.

`insert` keeps an existing entry (`std::map::insert`), `assign` replaces it
(`operator[]`), `mapM` updates the values in place and may abort.
-/

namespace TfAnalytics.Lib

variable {κ β : Type}

-- ---------------------------------------------------------------------------
-- Sorted association lists
-- ---------------------------------------------------------------------------

/-- Update every value; one abort aborts the whole. -/
def mapListM (f : κ → β → Option β) : List (κ × β) → Option (List (κ × β))
  | [] => some []
  | (k, v) :: rest => do
    let v' ← f k v
    let rest' ← mapListM f rest
    some ((k, v') :: rest')

theorem mapListM_nil (f : κ → β → Option β) : mapListM f [] = some [] := rfl

theorem mapListM_cons (f : κ → β → Option β) (k : κ) (v : β) (rest : List (κ × β)) :
    mapListM f ((k, v) :: rest) = (do
      let v' ← f k v
      let rest' ← mapListM f rest
      some ((k, v') :: rest')) := rfl

theorem mapListM_keys {f : κ → β → Option β} {l l' : List (κ × β)}
    (h : mapListM f l = some l') : l'.map Prod.fst = l.map Prod.fst := by
  induction l generalizing l' with
  | nil => simp only [mapListM_nil, Option.some.injEq] at h; subst h; rfl
  | cons hd rest ih =>
    obtain ⟨k, v⟩ := hd
    simp only [mapListM_cons, Option.bind_eq_bind, Option.bind_eq_some_iff, Option.some.injEq] at h
    obtain ⟨v', -, rest', hrest, rfl⟩ := h
    simp [ih hrest]

/-- `mapListM` succeeds when every entry's update does. -/
theorem mapListM_isSome {f : κ → β → Option β} {l : List (κ × β)}
    (h : ∀ e ∈ l, (f e.1 e.2).isSome) : ∃ l', mapListM f l = some l' := by
  induction l with
  | nil => exact ⟨[], rfl⟩
  | cons hd rest ih =>
    obtain ⟨k, v⟩ := hd
    obtain ⟨v', hv'⟩ := Option.isSome_iff_exists.mp (h (k, v) (List.mem_cons_self ..))
    obtain ⟨rest', hrest⟩ := ih fun e he => h e (List.mem_cons_of_mem _ he)
    exact ⟨(k, v') :: rest', by simp [mapListM_cons, hv', hrest]⟩

/-- Collect what each element gives; one abort aborts the whole. -/
def collectM {α ε : Type} (f : α → Option (List ε)) : List α → Option (List ε)
  | [] => some []
  | a :: rest => do
    let xs ← f a
    let rest' ← collectM f rest
    some (xs ++ rest')

theorem collectM_nil {α ε : Type} (f : α → Option (List ε)) : collectM f [] = some [] := rfl

theorem collectM_cons {α ε : Type} (f : α → Option (List ε)) (a : α) (rest : List α) :
    collectM f (a :: rest) = (do
      let xs ← f a
      let rest' ← collectM f rest
      some (xs ++ rest')) := rfl

theorem mem_collectM {α ε : Type} {f : α → Option (List ε)} {l : List α} {r : List ε}
    (h : collectM f l = some r) {x : ε} :
    x ∈ r ↔ ∃ a ∈ l, ∃ xs, f a = some xs ∧ x ∈ xs := by
  induction l generalizing r with
  | nil => simp only [collectM_nil, Option.some.injEq] at h; subst h; simp
  | cons a rest ih =>
    simp only [collectM_cons, Option.bind_eq_bind, Option.bind_eq_some_iff, Option.some.injEq] at h
    obtain ⟨xs, hxs, rest', hrest, rfl⟩ := h
    rw [List.mem_append, ih hrest]
    simp [hxs]

theorem collectM_isSome {α ε : Type} {f : α → Option (List ε)} {l : List α}
    (h : ∀ a ∈ l, (f a).isSome) : ∃ r, collectM f l = some r := by
  induction l with
  | nil => exact ⟨[], rfl⟩
  | cons a rest ih =>
    obtain ⟨xs, hxs⟩ := Option.isSome_iff_exists.mp (h a (List.mem_cons_self ..))
    obtain ⟨rest', hrest⟩ := ih fun b hb => h b (List.mem_cons_of_mem _ hb)
    exact ⟨xs ++ rest', by simp [collectM_cons, hxs, hrest]⟩

theorem collectM_isSome_iff {α ε : Type} {f : α → Option (List ε)} {l : List α} :
    (collectM f l).isSome = true ↔ ∀ a ∈ l, (f a).isSome = true := by
  induction l with
  | nil => simp [collectM_nil]
  | cons a rest ih =>
    rw [List.forall_mem_cons, ← ih]
    simp only [collectM_cons]
    cases hxs : f a with
    | none => simp
    | some xs =>
      cases hrest : collectM f rest with
      | none => simp
      | some rest' => simp

/-- A step that aborts whatever came before makes the whole fold abort. -/
theorem foldlM_eq_none {α σ : Type} {f : σ → α → Option σ} {l : List α} {a : α} (ha : a ∈ l)
    (h : ∀ b, f b a = none) (b : σ) : l.foldlM f b = none := by
  induction l generalizing b with
  | nil => exact absurd ha (by simp)
  | cons x rest ih =>
    rw [List.foldlM_cons]
    rcases List.mem_cons.mp ha with rfl | ha
    · rw [h b]
      rfl
    · cases hx : f b x with
      | none => rfl
      | some b' => exact ih ha b'

theorem mapM_eq_none {α ε : Type} {f : α → Option ε} {l : List α} {a : α} (ha : a ∈ l)
    (h : f a = none) : l.mapM f = none := by
  induction l with
  | nil => exact absurd ha (by simp)
  | cons x rest ih =>
    rw [List.mapM_cons]
    rcases List.mem_cons.mp ha with rfl | ha
    · rw [h]
      rfl
    · rw [ih ha]
      cases f x <;> rfl

/-- The run rule of a fold: what every step keeps, and no step aborts on, holds at
the end. -/
theorem foldlM_invariant {α σ : Type} {P : σ → Prop} {f : σ → α → Option σ} {l : List α}
    (hstep : ∀ a ∈ l, ∀ b, P b → ∃ b', f b a = some b' ∧ P b') {b : σ} (hb : P b) :
    ∃ b', l.foldlM f b = some b' ∧ P b' := by
  induction l generalizing b with
  | nil => exact ⟨b, rfl, hb⟩
  | cons a rest ih =>
    obtain ⟨b₁, hb₁, hP⟩ := hstep a List.mem_cons_self b hb
    obtain ⟨b', hb', hP'⟩ := ih (fun a' ha' => hstep a' (List.mem_cons_of_mem _ ha')) hP
    refine ⟨b', ?_, hP'⟩
    rw [List.foldlM_cons, hb₁]
    exact hb'

theorem mapM_forall {α ε : Type} {P : ε → Prop} {f : α → Option ε} {l : List α}
    (h : ∀ a ∈ l, ∃ x, f a = some x ∧ P x) : ∃ r, l.mapM f = some r ∧ ∀ x ∈ r, P x := by
  induction l with
  | nil => exact ⟨[], rfl, fun x hx => absurd hx (by simp)⟩
  | cons a rest ih =>
    obtain ⟨x, hx, hP⟩ := h a List.mem_cons_self
    obtain ⟨r, hr, hall⟩ := ih fun a' ha' => h a' (List.mem_cons_of_mem _ ha')
    refine ⟨x :: r, ?_, List.forall_mem_cons.mpr ⟨hP, hall⟩⟩
    rw [List.mapM_cons, hx, hr]
    rfl

theorem mapM_eq_some_map {α ε : Type} {f : α → Option ε} {g : α → ε} {l : List α}
    (h : ∀ a ∈ l, f a = some (g a)) : l.mapM f = some (l.map g) := by
  induction l with
  | nil => rfl
  | cons a rest ih =>
    rw [List.mapM_cons, h a List.mem_cons_self, ih fun a' ha' => h a' (List.mem_cons_of_mem _ ha')]
    rfl

theorem mem_mapM_iff {α ε : Type} {f : α → Option ε} {l : List α} {r : List ε}
    (h : l.mapM f = some r) {x : ε} : x ∈ r ↔ ∃ a ∈ l, f a = some x := by
  induction l generalizing r with
  | nil =>
    obtain rfl := Option.some.inj h
    simp
  | cons a rest ih =>
    simp only [List.mapM_cons, Option.bind_eq_bind, Option.bind_eq_some_iff, Option.pure_def,
      Option.some.injEq] at h
    obtain ⟨y, hy, r', hr', rfl⟩ := h
    rw [List.mem_cons, ih hr', List.exists_mem_cons_iff, hy, Option.some.injEq, eq_comm]

theorem mapM_isSome_iff {α ε : Type} {f : α → Option ε} {l : List α} :
    (l.mapM f).isSome ↔ ∀ a ∈ l, (f a).isSome := by
  constructor
  · intro h a ha
    rw [Option.isSome_iff_ne_none] at h ⊢
    exact fun hnone => h (mapM_eq_none ha hnone)
  · intro h
    obtain ⟨r, hr, -⟩ := mapM_forall (P := fun _ => True)
      fun a ha => (Option.isSome_iff_exists.mp (h a ha)).imp fun _ hx => ⟨hx, trivial⟩
    rw [hr]
    rfl

/-- When a fold gets through: `Q` says when a step does, after the elements before it, and
`P` is what the steps keep. -/
theorem foldlM_isSome_iff {α σ : Type} {f : σ → α → Option σ} {P : List α → σ → Prop}
    {Q : List α → α → Prop}
    (hok : ∀ seen s a, P seen s → ((f s a).isSome ↔ Q seen a))
    (hstep : ∀ seen s a s', P seen s → f s a = some s' → P (seen ++ [a]) s')
    (l : List α) (seen : List α) (s : σ) (hs : P seen s) :
    ((l.foldlM f s).isSome ↔ ∀ pre a post, l = pre ++ a :: post → Q (seen ++ pre) a) ∧
      ∀ s', l.foldlM f s = some s' → P (seen ++ l) s' := by
  induction l generalizing seen s with
  | nil =>
    refine ⟨⟨fun _ pre a post h => absurd h (by simp), fun _ => rfl⟩, ?_⟩
    intro s' hs'
    cases hs'
    rwa [List.append_nil]
  | cons a rest ih =>
    rw [List.foldlM_cons]
    cases hf : f s a with
    | none =>
      have hbad : ¬ Q seen a := fun h => by simpa [hf] using (hok seen s a hs).mpr h
      refine ⟨⟨(nomatch ·), fun h => ?_⟩, fun s' h => nomatch h⟩
      exact absurd (h [] a rest rfl) (by rwa [List.append_nil])
    | some s₁ =>
      have hgood : Q seen a := (hok seen s a hs).mp (by rw [hf]; rfl)
      obtain ⟨hiff, hrun⟩ := ih (seen ++ [a]) s₁ (hstep seen s a s₁ hs hf)
      refine ⟨hiff.trans ⟨fun h pre b post heq => ?_, fun h pre b post heq => ?_⟩, fun s' hs' => ?_⟩
      · cases pre with
        | nil =>
          obtain ⟨rfl, -⟩ := List.cons.inj heq
          rwa [List.append_nil]
        | cons c pre =>
          obtain ⟨rfl, htail⟩ := List.cons.inj heq
          simpa using h pre b post htail
      · simpa using h (a :: pre) b post (by rw [heq, List.cons_append])
      · simpa using hrun s' hs'

/-- The same where a step's success does not depend on the elements before it. -/
theorem foldlM_isSome_iff_forall {α σ : Type} {f : σ → α → Option σ} {P : σ → Prop}
    {Q : α → Prop} (hok : ∀ s a, P s → ((f s a).isSome ↔ Q a))
    (hstep : ∀ s a s', P s → f s a = some s' → P s') (l : List α) (s : σ) (hs : P s) :
    ((l.foldlM f s).isSome ↔ ∀ a ∈ l, Q a) ∧ ∀ s', l.foldlM f s = some s' → P s' := by
  obtain ⟨hiff, hrun⟩ := foldlM_isSome_iff (P := fun _ => P) (Q := fun _ => Q)
    (fun _ s a => hok s a) (fun _ s a s' => hstep s a s') l [] s hs
  refine ⟨hiff.trans ⟨fun h a ha => ?_, fun h pre a post heq => h a (by simp [heq])⟩, hrun⟩
  obtain ⟨pre, post, heq⟩ := List.append_of_mem ha
  exact h pre a post heq

theorem eq_some_getD {α : Type} {a : Option α} (h : a.isSome) (d : α) : a = some (a.getD d) := by
  cases a with
  | none => cases h
  | some x => rfl

theorem forall₂_exists_right {α ε : Type} {R : α → ε → Prop} {l : List α} {r : List ε}
    (h : List.Forall₂ R l r) {a : α} (ha : a ∈ l) : ∃ b ∈ r, R a b := by
  induction h with
  | nil => exact absurd ha (by simp)
  | cons hab _ ih =>
    rcases List.mem_cons.mp ha with rfl | ha
    · exact ⟨_, List.mem_cons_self .., hab⟩
    · obtain ⟨b, hb, hab⟩ := ih ha
      exact ⟨b, List.mem_cons_of_mem _ hb, hab⟩

section Lists

variable [LinearOrder κ]

def findList (k : κ) : List (κ × β) → Option β
  | [] => none
  | (k', v) :: rest => if k = k' then some v else findList k rest

theorem findList_nil (k : κ) : findList k ([] : List (κ × β)) = none := rfl

theorem findList_cons (k k' : κ) (v : β) (rest : List (κ × β)) :
    findList k ((k', v) :: rest) = if k = k' then some v else findList k rest := rfl

/-- `std::map::insert`: no effect when the key is there. -/
def insertList (k : κ) (v : β) : List (κ × β) → List (κ × β)
  | [] => [(k, v)]
  | (k', v') :: rest =>
    if k < k' then (k, v) :: (k', v') :: rest
    else if k = k' then (k', v') :: rest
    else (k', v') :: insertList k v rest

theorem insertList_nil (k : κ) (v : β) : insertList k v [] = [(k, v)] := rfl

theorem insertList_cons (k k' : κ) (v v' : β) (rest : List (κ × β)) :
    insertList k v ((k', v') :: rest) =
      if k < k' then (k, v) :: (k', v') :: rest
      else if k = k' then (k', v') :: rest
      else (k', v') :: insertList k v rest := rfl

def eraseList (k : κ) (l : List (κ × β)) : List (κ × β) := l.filter fun e => e.1 ≠ k

/-- Strictly increasing keys. -/
def KeysLt (l : List (κ × β)) : Prop := l.Pairwise fun a b => a.1 < b.1

theorem mem_insertList {k : κ} {v : β} {l : List (κ × β)} {e : κ × β}
    (h : e ∈ insertList k v l) : e = (k, v) ∨ e ∈ l := by
  induction l with
  | nil => simpa [insertList_nil] using h
  | cons hd rest ih =>
    obtain ⟨k', v'⟩ := hd
    rw [insertList_cons] at h
    split_ifs at h
    · simpa using h
    · exact Or.inr h
    · rcases List.mem_cons.mp h with rfl | h
      · exact Or.inr (List.mem_cons_self ..)
      · exact (ih h).imp id (List.mem_cons_of_mem _)

/-- An insertion changes nothing or adds the one entry. -/
theorem insertList_eq_or_perm (k : κ) (v : β) (l : List (κ × β)) :
    insertList k v l = l ∨ (insertList k v l).Perm ((k, v) :: l) := by
  induction l with
  | nil => exact Or.inr (List.Perm.refl _)
  | cons hd rest ih =>
    obtain ⟨k', v'⟩ := hd
    rw [insertList_cons]
    split_ifs
    · exact Or.inr (List.Perm.refl _)
    · exact Or.inl rfl
    · rcases ih with heq | hp
      · exact Or.inl (by rw [heq])
      · exact Or.inr ((hp.cons _).trans (List.Perm.swap _ _ _))

theorem keysLt_insertList {k : κ} {v : β} {l : List (κ × β)} (h : KeysLt l) :
    KeysLt (insertList k v l) := by
  induction l with
  | nil => exact List.pairwise_singleton _ _
  | cons hd rest ih =>
    obtain ⟨k', v'⟩ := hd
    obtain ⟨hhd, hrest⟩ := List.pairwise_cons.mp h
    rw [insertList_cons]
    split_ifs with hlt heq
    · refine List.pairwise_cons.mpr ⟨?_, h⟩
      intro e he
      rcases List.mem_cons.mp he with rfl | he
      · exact hlt
      · exact lt_trans hlt (hhd e he)
    · exact h
    · refine List.pairwise_cons.mpr ⟨?_, ih hrest⟩
      intro e he
      rcases mem_insertList he with rfl | he
      · exact lt_of_le_of_ne (not_lt.mp hlt) (Ne.symm heq)
      · exact hhd e he

theorem findList_eq_none_of_lt {k : κ} {l : List (κ × β)} (h : ∀ e ∈ l, k < e.1) :
    findList k l = none := by
  induction l with
  | nil => rfl
  | cons e rest ih =>
    obtain ⟨ke, ve⟩ := e
    have hke : k ≠ ke := ne_of_lt (h _ (List.mem_cons_self ..))
    rw [findList_cons, if_neg hke]
    exact ih fun e he => h e (List.mem_cons_of_mem _ he)

theorem findList_insertList {k k' : κ} {v : β} {l : List (κ × β)} (h : KeysLt l) :
    findList k' (insertList k v l) =
      if k' = k then some ((findList k l).getD v) else findList k' l := by
  induction l with
  | nil => simp [insertList_nil, findList_nil, findList_cons]
  | cons hd rest ih =>
    obtain ⟨kh, vh⟩ := hd
    obtain ⟨hhd, hrest⟩ := List.pairwise_cons.mp h
    rw [insertList_cons]
    by_cases hlt : k < kh
    · -- `k` goes in front: it is in no later entry
      have hne : k ≠ kh := ne_of_lt hlt
      have hnone : findList k rest = none :=
        findList_eq_none_of_lt fun e he => lt_trans hlt (hhd e he)
      rw [if_pos hlt]
      simp [findList_cons, hne, hnone]
    · rw [if_neg hlt]
      by_cases heq : k = kh
      · subst heq
        rw [if_pos rfl]
        by_cases hk : k' = k
        · subst hk
          simp [findList_cons]
        · simp [hk]
      · rw [if_neg heq]
        simp only [findList_cons, ih hrest, if_neg heq]
        by_cases hk : k' = k
        · subst hk
          simp [heq]
        · simp [hk]

theorem findList_eraseList {k k' : κ} {l : List (κ × β)} :
    findList k' (eraseList k l) = if k' = k then none else findList k' l := by
  induction l with
  | nil => simp [eraseList, findList_nil]
  | cons hd rest ih =>
    obtain ⟨kh, vh⟩ := hd
    rw [eraseList] at ih
    rw [eraseList, List.filter_cons]
    by_cases hk : kh = k
    · subst hk
      simp only [ne_eq, not_true_eq_false, decide_false, Bool.false_eq_true, if_false,
        findList_cons]
      rw [ih]
      by_cases hk' : k' = kh
      · simp [hk']
      · simp [hk']
    · simp only [ne_eq, hk, not_false_eq_true, decide_true, if_true, findList_cons]
      rw [ih]
      by_cases hk' : k' = kh
      · have : k' ≠ k := fun h => hk (hk'.symm.trans h)
        simp [hk', hk]
      · simp [hk']

theorem mem_of_findList {k : κ} {v : β} {l : List (κ × β)} (h : findList k l = some v) :
    (k, v) ∈ l := by
  induction l with
  | nil => cases h
  | cons hd rest ih =>
    obtain ⟨k', v'⟩ := hd
    rw [findList_cons] at h
    split at h
    · rename_i hk
      injection h with h
      subst hk h
      exact List.mem_cons_self ..
    · exact List.mem_cons_of_mem _ (ih h)

theorem findList_append (k : κ) (l₁ l₂ : List (κ × β)) :
    findList k (l₁ ++ l₂) = (findList k l₁).or (findList k l₂) := by
  induction l₁ with
  | nil => simp [findList_nil]
  | cons e l₁ ih =>
    obtain ⟨k', v⟩ := e
    rw [List.cons_append, findList_cons, findList_cons]
    split
    · rfl
    · exact ih

theorem findList_isSome_iff {k : κ} {l : List (κ × β)} :
    (findList k l).isSome = true ↔ ∃ v, (k, v) ∈ l := by
  induction l with
  | nil => simp [findList_nil]
  | cons hd rest ih =>
    obtain ⟨k', v'⟩ := hd
    rw [findList_cons]
    by_cases hk : k = k'
    · subst hk
      simp
    · simp [hk, ih]

theorem mem_iff_findList {k : κ} {v : β} {l : List (κ × β)} (h : KeysLt l) :
    (k, v) ∈ l ↔ findList k l = some v := by
  induction l with
  | nil => simp [findList_nil]
  | cons hd rest ih =>
    obtain ⟨kh, vh⟩ := hd
    obtain ⟨hhd, hrest⟩ := List.pairwise_cons.mp h
    rw [List.mem_cons, findList_cons, ih hrest]
    by_cases hk : k = kh
    · subst hk
      have hnone : findList k rest = none := findList_eq_none_of_lt hhd
      simp [hnone, eq_comm]
    · simp [hk]

/-- Strictly sorted lists with the same members are equal. -/
theorem eq_of_keysLt {l l' : List (κ × β)} (h : KeysLt l) (h' : KeysLt l')
    (hmem : ∀ e, e ∈ l ↔ e ∈ l') : l = l' := by
  have hnd : ∀ {m : List (κ × β)}, KeysLt m → m.Nodup := fun hm =>
    hm.imp fun hab heq => absurd (heq ▸ hab) (lt_irrefl _)
  refine List.Perm.eq_of_pairwise (fun a b _ _ hab hba => ?_) h h'
    ((List.perm_ext_iff_of_nodup (hnd h) (hnd h')).mpr hmem)
  exact absurd (lt_trans hab hba) (lt_irrefl _)

theorem findList_mapListM {f : κ → β → Option β} {l l' : List (κ × β)}
    (h : mapListM f l = some l') (k : κ) :
    findList k l' = (findList k l).bind (f k) := by
  induction l generalizing l' with
  | nil => simp only [mapListM_nil, Option.some.injEq] at h; subst h; rfl
  | cons hd rest ih =>
    obtain ⟨kh, vh⟩ := hd
    simp only [mapListM_cons, Option.bind_eq_bind, Option.bind_eq_some_iff, Option.some.injEq] at h
    obtain ⟨v', hv', rest', hrest, rfl⟩ := h
    simp only [findList_cons]
    by_cases hk : k = kh
    · subst hk
      simp [hv']
    · simp only [if_neg hk]
      exact ih hrest

end Lists

-- ---------------------------------------------------------------------------
-- The map
-- ---------------------------------------------------------------------------

structure OrderedMap (κ β : Type) [LinearOrder κ] where
  entries : List (κ × β)
  sorted : KeysLt entries

namespace OrderedMap

variable [LinearOrder κ]

theorem ext_entries {m m' : OrderedMap κ β} (h : m.entries = m'.entries) : m = m' := by
  cases m; cases m'; cases h; rfl

instance [DecidableEq β] : DecidableEq (OrderedMap κ β) := fun m m' =>
  decidable_of_iff (m.entries = m'.entries) ⟨ext_entries, fun h => h ▸ rfl⟩

def empty : OrderedMap κ β := ⟨[], List.Pairwise.nil⟩

instance : Inhabited (OrderedMap κ β) := ⟨empty⟩

def isEmpty (m : OrderedMap κ β) : Bool := m.entries.isEmpty

def size (m : OrderedMap κ β) : Nat := m.entries.length

def find? (m : OrderedMap κ β) (k : κ) : Option β := findList k m.entries

def insert (m : OrderedMap κ β) (k : κ) (v : β) : OrderedMap κ β :=
  ⟨insertList k v m.entries, keysLt_insertList m.sorted⟩

def erase (m : OrderedMap κ β) (k : κ) : OrderedMap κ β :=
  ⟨eraseList k m.entries, List.Pairwise.filter _ m.sorted⟩

def assign (m : OrderedMap κ β) (k : κ) (v : β) : OrderedMap κ β := (m.erase k).insert k v

/-- Insert the pairs in turn: the first value of a key stays. -/
def ofList (l : List (κ × β)) : OrderedMap κ β := l.foldl (fun m e => m.insert e.1 e.2) empty

/-- Keep the entries whose key passes the test. -/
def filterKeys (p : κ → Bool) (m : OrderedMap κ β) : OrderedMap κ β :=
  ⟨m.entries.filter fun e => p e.1, List.Pairwise.filter _ m.sorted⟩

/-- Replace every value, or drop it. -/
def filterMapValues (g : β → Option β) (m : OrderedMap κ β) : OrderedMap κ β :=
  ⟨m.entries.filterMap fun e => (g e.2).map fun v => (e.1, v), by
    refine List.Pairwise.filterMap _ ?_ m.sorted
    intro a b hlt a' ha b' hb
    obtain ⟨_, -, rfl⟩ := Option.map_eq_some_iff.mp ha
    obtain ⟨_, -, rfl⟩ := Option.map_eq_some_iff.mp hb
    exact hlt⟩

theorem mapListM_keysLt {f : κ → β → Option β} {l l' : List (κ × β)}
    (h : mapListM f l = some l') (hl : KeysLt l) : KeysLt l' := by
  have hkeys := mapListM_keys h
  unfold KeysLt at *
  have hmap : (l.map Prod.fst).Pairwise (· < ·) := List.pairwise_map.mpr hl
  rw [← hkeys] at hmap
  exact List.pairwise_map.mp hmap

def mapM (f : κ → β → Option β) (m : OrderedMap κ β) : Option (OrderedMap κ β) :=
  match h : mapListM f m.entries with
  | none => none
  | some l => some ⟨l, mapListM_keysLt h m.sorted⟩

@[simp] theorem find?_empty (k : κ) : (empty : OrderedMap κ β).find? k = none := rfl

theorem find?_insert (m : OrderedMap κ β) (k k' : κ) (v : β) :
    (m.insert k v).find? k' = if k' = k then some ((m.find? k).getD v) else m.find? k' :=
  findList_insertList m.sorted

theorem find?_erase (m : OrderedMap κ β) (k k' : κ) :
    (m.erase k).find? k' = if k' = k then none else m.find? k' :=
  findList_eraseList

theorem find?_assign (m : OrderedMap κ β) (k k' : κ) (v : β) :
    (m.assign k v).find? k' = if k' = k then some v else m.find? k' := by
  rw [assign, find?_insert, find?_erase, find?_erase]
  by_cases hk : k' = k <;> simp [hk]

/-- Keys assigned in turn, each with its own value. -/
theorem find?_foldl_assign (g : κ → β) (l : List κ) (m : OrderedMap κ β) (k : κ) :
    (l.foldl (fun m x => m.assign x (g x)) m).find? k =
      if k ∈ l then some (g k) else m.find? k := by
  induction l generalizing m with
  | nil => simp
  | cons x l ih =>
    rw [List.foldl_cons, ih, find?_assign]
    by_cases hl : k ∈ l
    · rw [if_pos hl, if_pos (List.mem_cons_of_mem x hl)]
    · by_cases hx : k = x
      · rw [if_neg hl, if_pos hx, if_pos (hx ▸ List.mem_cons_self), hx]
      · rw [if_neg hl, if_neg hx, if_neg (by simp [hx, hl])]

theorem find?_foldl_insert (l : List (κ × β)) (m : OrderedMap κ β) (k : κ) :
    (l.foldl (fun m e => m.insert e.1 e.2) m).find? k = (m.find? k).or (findList k l) := by
  induction l generalizing m with
  | nil => simp [findList_nil]
  | cons e rest ih =>
    obtain ⟨ke, ve⟩ := e
    rw [List.foldl_cons, ih, find?_insert, findList_cons]
    by_cases hk : k = ke
    · subst hk
      cases m.find? k <;> simp
    · simp [hk]

theorem find?_ofList (l : List (κ × β)) (k : κ) :
    (ofList l : OrderedMap κ β).find? k = findList k l := by
  simp [ofList, find?_foldl_insert]

theorem mem_entries {m : OrderedMap κ β} {k : κ} {v : β} :
    (k, v) ∈ m.entries ↔ m.find? k = some v :=
  mem_iff_findList m.sorted

/-- Maps with the same lookups are equal. -/
theorem ext_find {m m' : OrderedMap κ β} (h : ∀ k, m.find? k = m'.find? k) : m = m' := by
  refine ext_entries (eq_of_keysLt m.sorted m'.sorted ?_)
  rintro ⟨k, v⟩
  rw [mem_entries, mem_entries, h k]

/-- There is nothing to erase. -/
theorem erase_eq_self {m : OrderedMap κ β} {k : κ} (h : m.find? k = none) : m.erase k = m := by
  refine ext_find fun k' => ?_
  rw [find?_erase]
  split
  · next heq => rw [heq, h]
  · rfl

theorem entries_nodup (m : OrderedMap κ β) : m.entries.Nodup :=
  m.sorted.imp fun h heq => absurd (congrArg Prod.fst heq) (ne_of_lt h)

/-- The entry of a key and the others. -/
theorem entries_perm_of_find {m : OrderedMap κ β} {k : κ} {v : β} (h : m.find? k = some v) :
    m.entries.Perm ((k, v) :: (m.erase k).entries) := by
  have hnot : (k, v) ∉ (m.erase k).entries := by
    rw [mem_entries, find?_erase, if_pos rfl]
    exact nofun
  rw [List.perm_ext_iff_of_nodup m.entries_nodup
    (List.nodup_cons.mpr ⟨hnot, (m.erase k).entries_nodup⟩)]
  rintro ⟨k', v'⟩
  rw [List.mem_cons, mem_entries, mem_entries, find?_erase, Prod.mk.injEq]
  by_cases hk : k' = k
  · simp [hk, h, eq_comm]
  · simp [hk]

theorem assign_entries_perm (m : OrderedMap κ β) (k : κ) (v : β) :
    (m.assign k v).entries.Perm ((k, v) :: (m.erase k).entries) := by
  have hfind : (m.assign k v).find? k = some v := by rw [find?_assign, if_pos rfl]
  have herase : (m.assign k v).erase k = m.erase k := by
    apply ext_find
    intro k'
    rw [find?_erase, find?_erase, find?_assign]
    by_cases hk : k' = k <;> simp [hk]
  exact herase ▸ entries_perm_of_find hfind

/-- A loop over the entries that only the entry of one key affects. -/
theorem foldl_entries {σ : Type} {f : σ → κ × β → σ} {k : κ}
    (hother : ∀ s e, e.1 ≠ k → f s e = s) (m : OrderedMap κ β) (s : σ) :
    m.entries.foldl f s = (m.find? k).elim s fun v => f s (k, v) := by
  have hnone : ∀ l : List (κ × β), (∀ e ∈ l, e.1 ≠ k) → ∀ s, l.foldl f s = s := by
    intro l
    induction l with
    | nil => exact fun _ _ => rfl
    | cons e l ih =>
      intro hl s
      rw [List.foldl_cons, hother s e (hl e List.mem_cons_self)]
      exact ih (fun e' he' => hl e' (List.mem_cons_of_mem e he')) s
  have hlist : ∀ l : List (κ × β), KeysLt l → ∀ s,
      l.foldl f s = (findList k l).elim s fun v => f s (k, v) := by
    intro l
    induction l with
    | nil => exact fun _ _ => rfl
    | cons e l ih =>
      intro hl s
      have hgt : ∀ e' ∈ l, e.1 < e'.1 := (List.pairwise_cons.mp hl).1
      rw [List.foldl_cons, findList_cons]
      by_cases he : e.1 = k
      · rw [hnone l (fun e' he' => (he ▸ hgt e' he').ne'), if_pos he.symm, ← he]
        rfl
      · rw [hother s e he, ih (List.pairwise_cons.mp hl).2, if_neg (Ne.symm he)]
  exact hlist m.entries m.sorted s

theorem find?_filterKeys (p : κ → Bool) (m : OrderedMap κ β) (k : κ) :
    (m.filterKeys p).find? k = if p k then m.find? k else none := by
  refine Option.ext fun v => ?_
  rw [← mem_entries]
  show (k, v) ∈ m.entries.filter (fun e => p e.1) ↔ _
  rw [List.mem_filter, mem_entries]
  by_cases hp : p k <;> simp [hp]

theorem find?_filterMapValues (g : β → Option β) (m : OrderedMap κ β) (k : κ) :
    (m.filterMapValues g).find? k = (m.find? k).bind g := by
  refine Option.ext fun v => ?_
  rw [← mem_entries, Option.bind_eq_some_iff]
  simp only [filterMapValues, List.mem_filterMap, Option.map_eq_some_iff]
  constructor
  · rintro ⟨⟨k', w⟩, hmem, v', hv', heq⟩
    obtain ⟨rfl, rfl⟩ := Prod.mk.inj heq
    exact ⟨w, mem_entries.mp hmem, hv'⟩
  · rintro ⟨w, hw, hv⟩
    exact ⟨(k, w), mem_entries.mpr hw, v, hv, rfl⟩

theorem isEmpty_iff {m : OrderedMap κ β} : m.isEmpty = true ↔ ∀ k, m.find? k = none := by
  unfold isEmpty
  rw [List.isEmpty_iff]
  constructor
  · intro h k
    unfold find?
    rw [h]
    rfl
  · intro h
    by_contra hne
    obtain ⟨⟨k, v⟩, hkv⟩ := List.exists_mem_of_ne_nil _ hne
    rw [mem_entries, h k] at hkv
    exact absurd hkv (by simp)

/-- The values that `g` picks, in the order of the keys, depend on the lookups only. -/
theorem filterMap_entries_congr {γ : Type} (g : β → Option γ) {m m' : OrderedMap κ β}
    (h : ∀ k, (m.find? k).bind g = (m'.find? k).bind g) :
    m.entries.filterMap (fun e => g e.2) = m'.entries.filterMap (fun e => g e.2) := by
  -- The picked values under their keys form a sorted list again.
  let pick : κ × β → Option (κ × γ) := fun e => (g e.2).map fun v => (e.1, v)
  have hsorted : ∀ m : OrderedMap κ β, KeysLt (m.entries.filterMap pick) := by
    intro m
    refine List.pairwise_filterMap.mpr (m.sorted.imp fun {a b} hab c hc d hd => ?_)
    obtain ⟨v, -, rfl⟩ := Option.map_eq_some_iff.mp hc
    obtain ⟨w, -, rfl⟩ := Option.map_eq_some_iff.mp hd
    exact hab
  have hmem : ∀ (m : OrderedMap κ β) k v,
      (k, v) ∈ m.entries.filterMap pick ↔ (m.find? k).bind g = some v := by
    intro m k v
    rw [List.mem_filterMap, Option.bind_eq_some_iff]
    constructor
    · rintro ⟨⟨k', w⟩, hkw, hpick⟩
      obtain ⟨v', hv', heq⟩ := Option.map_eq_some_iff.mp hpick
      obtain ⟨rfl, rfl⟩ := Prod.mk.inj heq
      exact ⟨w, mem_entries.mp hkw, hv'⟩
    · rintro ⟨w, hw, hv⟩
      exact ⟨(k, w), mem_entries.mpr hw, Option.map_eq_some_iff.mpr ⟨v, hv, rfl⟩⟩
  have hpicked : m.entries.filterMap pick = m'.entries.filterMap pick := by
    refine eq_of_keysLt (hsorted m) (hsorted m') ?_
    rintro ⟨k, v⟩
    rw [hmem, hmem, h]
  have hvalues : ∀ m : OrderedMap κ β,
      m.entries.filterMap (fun e => g e.2) = (m.entries.filterMap pick).map Prod.snd := by
    intro m
    rw [List.map_filterMap]
    refine List.filterMap_congr fun e _ => ?_
    simp [pick, Function.comp_def]
  rw [hvalues, hvalues, hpicked]

theorem find?_mapM {f : κ → β → Option β} {m m' : OrderedMap κ β} (h : m.mapM f = some m')
    (k : κ) : m'.find? k = (m.find? k).bind (f k) := by
  unfold mapM at h
  split at h
  · cases h
  · rename_i l hl
    injection h with h
    subst h
    exact findList_mapListM hl k

theorem mapM_isSome {f : κ → β → Option β} {m : OrderedMap κ β}
    (h : ∀ k v, m.find? k = some v → (f k v).isSome) : ∃ m', m.mapM f = some m' := by
  obtain ⟨l', hl'⟩ := mapListM_isSome
    fun e he => h e.1 e.2 (mem_entries.mp he)
  refine ⟨⟨l', mapListM_keysLt hl' m.sorted⟩, ?_⟩
  unfold mapM
  split
  · rename_i hnone
    rw [hl'] at hnone
    cases hnone
  · rename_i l hl
    rw [hl'] at hl
    injection hl with hl
    subst hl
    rfl

/-- An update that aborts on an entry aborts the whole. -/
theorem mapM_eq_none_of_find? {f : κ → β → Option β} {m : OrderedMap κ β} {k : κ} {v : β}
    (hk : m.find? k = some v) (hf : f k v = none) : m.mapM f = none := by
  cases hm : m.mapM f with
  | none => rfl
  | some m' =>
    have hkeys : m'.entries.map Prod.fst = m.entries.map Prod.fst := by
      unfold mapM at hm
      split at hm
      · cases hm
      · rename_i l hl
        injection hm with hm
        rw [← hm]
        exact mapListM_keys hl
    have hmem : k ∈ m'.entries.map Prod.fst := by
      rw [hkeys]
      exact List.mem_map_of_mem (mem_entries.mpr hk)
    obtain ⟨e, he, rfl⟩ := List.mem_map.mp hmem
    have hsome : m'.find? e.1 = some e.2 := mem_entries.mp he
    rw [find?_mapM hm, hk] at hsome
    exact absurd (hf.symm.trans hsome) (by simp)

end OrderedMap

end TfAnalytics.Lib
