import Mathlib.Data.List.Induction
import Mathlib.Data.List.Nodup
import Mathlib.Data.List.TakeWhile

/-!
# The first of its kind

A list is gone through from the left, and an element is kept unless one that was kept before
stands for it. `firstBy same` is what is kept.

* `mem_firstBy_or_same`: what is not kept has one that stands for it;
* `pairwise_firstBy`: no kept element stands for a later one;
* `distinct_filter`, `mem_takeWhile_distinct`: each element once, in the order of the first ones;
* `find?_firstBy_key`, `nodup_map_firstBy`, `mem_map_firstBy`: when elements stand for each
  other by a key, the first element of each key is kept and no other.
-/

namespace TfAnalytics.Lib

variable {α κ : Type}

/-- One more element. -/
def keepFirst (same : α → α → Bool) (kept : List α) (a : α) : List α :=
  if kept.any (same · a) then kept else kept ++ [a]

/-- The elements for which no kept element before them stands. -/
def firstBy (same : α → α → Bool) (l : List α) : List α := l.foldl (keepFirst same) []

variable {same : α → α → Bool}

@[simp] theorem firstBy_nil : firstBy same [] = [] := rfl

theorem firstBy_snoc (l : List α) (a : α) :
    firstBy same (l ++ [a]) = keepFirst same (firstBy same l) a := by
  rw [firstBy, List.foldl_append]
  rfl

@[simp] theorem firstBy_singleton (a : α) : firstBy same [a] = [a] := rfl

theorem mem_keepFirst {kept : List α} {a b : α} :
    b ∈ keepFirst same kept a ↔ b ∈ kept ∨ b = a ∧ kept.any (same · a) = false := by
  by_cases hany : kept.any (same · a) = true
  · rw [keepFirst, if_pos hany, hany]
    simp
  · rw [keepFirst, if_neg hany, List.mem_append, List.mem_singleton]
    simp [hany]

theorem mem_of_mem_firstBy {l : List α} {a : α} (h : a ∈ firstBy same l) : a ∈ l := by
  induction l using List.reverseRecOn with
  | nil => exact h
  | append_singleton l b ih =>
    rw [firstBy_snoc, mem_keepFirst] at h
    rcases h with h | ⟨rfl, -⟩
    · exact List.mem_append_left _ (ih h)
    · exact List.mem_append_right _ (List.mem_singleton_self a)

/-- What is not kept has a kept element that stands for it. -/
theorem mem_firstBy_or_same {l : List α} {a : α} (h : a ∈ l) :
    a ∈ firstBy same l ∨ ∃ r ∈ firstBy same l, same r a = true := by
  induction l using List.reverseRecOn with
  | nil => cases h
  | append_singleton l b ih =>
    simp only [firstBy_snoc, mem_keepFirst]
    rcases List.mem_append.mp h with h | h
    · rcases ih h with hmem | ⟨r, hr, hsame⟩
      · exact .inl (.inl hmem)
      · exact .inr ⟨r, .inl hr, hsame⟩
    · obtain rfl := List.mem_singleton.mp h
      by_cases hany : (firstBy same l).any (same · a) = true
      · obtain ⟨r, hr, hsame⟩ := List.any_eq_true.mp hany
        exact .inr ⟨r, .inl hr, hsame⟩
      · exact .inl (.inr ⟨rfl, Bool.not_eq_true _ ▸ hany⟩)

theorem firstBy_congr {same' : α → α → Bool} {l : List α}
    (h : ∀ a ∈ l, ∀ b ∈ l, same a b = same' a b) : firstBy same l = firstBy same' l := by
  induction l using List.reverseRecOn with
  | nil => rfl
  | append_singleton l b ih =>
    have hl : firstBy same l = firstBy same' l :=
      ih fun a ha c hc => h a (List.mem_append_left _ ha) c (List.mem_append_left _ hc)
    have hb : b ∈ l ++ [b] := List.mem_append_right _ (List.mem_singleton_self b)
    have hany : (firstBy same' l).any (same · b) = (firstBy same' l).any (same' · b) := by
      rw [Bool.eq_iff_iff, List.any_eq_true, List.any_eq_true]
      refine exists_congr fun a => and_congr_right fun ha => ?_
      rw [h a (List.mem_append_left _ (mem_of_mem_firstBy ha)) b hb]
    rw [firstBy_snoc, firstBy_snoc, hl, keepFirst, keepFirst, hany]

theorem pairwise_firstBy (l : List α) :
    (firstBy same l).Pairwise fun a b => same a b = false := by
  induction l using List.reverseRecOn with
  | nil => exact List.Pairwise.nil
  | append_singleton l b ih =>
    rw [firstBy_snoc, keepFirst]
    split
    · exact ih
    · rename_i hany
      refine List.pairwise_append.mpr ⟨ih, List.pairwise_singleton _ _, ?_⟩
      intro a ha c hc
      obtain rfl := List.mem_singleton.mp hc
      by_contra hsame
      exact hany (List.any_eq_true.mpr ⟨a, ha, Bool.not_eq_false _ ▸ hsame⟩)

-- ---------------------------------------------------------------------------
-- Each element once
-- ---------------------------------------------------------------------------

section Distinct

variable [DecidableEq α]

/-- The elements in the order in which they occur first. -/
def distinct (l : List α) : List α := firstBy (fun a b => decide (a = b)) l

theorem distinct_snoc (l : List α) (a : α) :
    distinct (l ++ [a]) = if a ∈ distinct l then distinct l else distinct l ++ [a] := by
  rw [distinct, firstBy_snoc, keepFirst]
  refine if_congr ?_ rfl rfl
  simp [distinct]

theorem mem_distinct {l : List α} {a : α} : a ∈ distinct l ↔ a ∈ l := by
  constructor
  · exact mem_of_mem_firstBy
  · intro h
    rcases @mem_firstBy_or_same α (fun a b => decide (a = b)) l a h with hmem | ⟨r, hr, hsame⟩
    · exact hmem
    · rw [← of_decide_eq_true hsame]
      exact hr

theorem nodup_distinct (l : List α) : (distinct l).Nodup := by
  have hpairs := @pairwise_firstBy α (fun a b => decide (a = b)) l
  exact hpairs.imp fun h => of_decide_eq_false h

theorem distinct_filter (p : α → Bool) (l : List α) :
    distinct (l.filter p) = (distinct l).filter p := by
  induction l using List.reverseRecOn with
  | nil => rfl
  | append_singleton l a ih =>
    rw [List.filter_append, distinct_snoc]
    by_cases hp : p a = true
    · rw [List.filter_singleton, hp, cond_true, distinct_snoc, ih]
      by_cases hmem : a ∈ distinct l
      · rw [if_pos hmem, if_pos (List.mem_filter.mpr ⟨hmem, hp⟩)]
      · rw [if_neg hmem, if_neg fun h => hmem (List.mem_filter.mp h).1, List.filter_append,
          List.filter_singleton, hp, cond_true]
    · rw [Bool.not_eq_true] at hp
      rw [List.filter_singleton, hp, cond_false, List.append_nil, ih]
      split
      · rfl
      · rw [List.filter_append, List.filter_singleton, hp, cond_false, List.append_nil]

/-- What occurs before an element occurs first. -/
theorem mem_takeWhile_distinct {l : List α} {a b : α} :
    a ∈ (distinct l).takeWhile (· ≠ b) ↔ a ∈ l.takeWhile (· ≠ b) := by
  induction l using List.reverseRecOn with
  | nil => rfl
  | append_singleton l c ih =>
    rw [distinct_snoc]
    by_cases hb : b ∈ l
    · -- only what is in front of `b` counts
      have hcut : ∀ m : List α, b ∈ m → ∀ m', (m ++ m').takeWhile (· ≠ b) = m.takeWhile (· ≠ b) := by
        intro m hm m'
        obtain ⟨x, y, rfl, hx⟩ := List.eq_append_cons_of_mem hm
        have hfree : ∀ z ∈ x, decide (z ≠ b) = true := fun z hz =>
          decide_eq_true fun h => hx (h ▸ hz)
        rw [List.append_assoc, List.cons_append, List.takeWhile_append_of_pos hfree,
          List.takeWhile_append_of_pos hfree, List.takeWhile_cons_of_neg (by simp),
          List.takeWhile_cons_of_neg (by simp)]
      rw [hcut l hb, ← ih]
      split
      · rfl
      · rw [hcut _ (mem_distinct.mpr hb)]
    · have hfree : ∀ z ∈ l, decide (z ≠ b) = true := fun z hz => decide_eq_true fun h => hb (h ▸ hz)
      have hfree' : ∀ z ∈ distinct l, decide (z ≠ b) = true := fun z hz =>
        hfree z (mem_distinct.mp hz)
      rw [List.takeWhile_append_of_pos hfree, List.mem_append]
      split
      next hmem =>
        rw [List.takeWhile_eq_self_iff.mpr hfree', mem_distinct]
        refine ⟨Or.inl, fun h => h.elim id fun hc => ?_⟩
        rw [List.mem_singleton.mp ((List.takeWhile_prefix _).subset hc)]
        exact mem_distinct.mp hmem
      next => rw [List.takeWhile_append_of_pos hfree', List.mem_append, mem_distinct]

end Distinct

-- ---------------------------------------------------------------------------
-- By a key
-- ---------------------------------------------------------------------------

/-- Where each key occurs once, an element is found by its key. -/
theorem find?_eq_some_of_nodup [DecidableEq κ] {key : α → κ} {l : List α}
    (hnd : (l.map key).Nodup) {a : α} (h : a ∈ l) : l.find? (fun b => key b = key a) = some a := by
  induction l with
  | nil => cases h
  | cons b rest ih =>
    rw [List.map_cons, List.nodup_cons] at hnd
    rw [List.find?_cons]
    rcases List.mem_cons.mp h with rfl | h
    · simp
    · have hne : key b ≠ key a := fun heq => hnd.1 (heq ▸ List.mem_map_of_mem h)
      simp [hne, ih hnd.2 h]

section Key

variable (key : α → κ) (hkey : ∀ a b, same a b = true ↔ key a = key b)

include hkey

theorem exists_firstBy_key {l : List α} {a : α} (h : a ∈ l) :
    ∃ r ∈ firstBy same l, key r = key a := by
  rcases mem_firstBy_or_same h with hmem | ⟨r, hr, hsame⟩
  · exact ⟨a, hmem, rfl⟩
  · exact ⟨r, hr, (hkey r a).mp hsame⟩

theorem mem_map_firstBy {l : List α} {k : κ} :
    k ∈ (firstBy same l).map key ↔ k ∈ l.map key := by
  simp only [List.mem_map]
  constructor
  · rintro ⟨r, hr, rfl⟩
    exact ⟨r, mem_of_mem_firstBy hr, rfl⟩
  · rintro ⟨a, ha, rfl⟩
    exact exists_firstBy_key key hkey ha

theorem nodup_map_firstBy (l : List α) : ((firstBy same l).map key).Nodup := by
  refine List.pairwise_map.mpr ((pairwise_firstBy l).imp ?_)
  intro a b hab heq
  rw [(hkey a b).mpr heq] at hab
  cases hab

theorem find?_firstBy_key [DecidableEq κ] (l : List α) (k : κ) :
    (firstBy same l).find? (fun a => key a = k) = l.find? fun a => key a = k := by
  induction l using List.reverseRecOn with
  | nil => rfl
  | append_singleton l a ih =>
    rw [firstBy_snoc, List.find?_append, ← ih, keepFirst]
    split
    · rename_i hany
      obtain ⟨r, hr, hsame⟩ := List.any_eq_true.mp hany
      by_cases hk : key a = k
      · -- The element that stands for `a` is found before it.
        have hfound : ((firstBy same l).find? fun a => key a = k).isSome :=
          List.find?_isSome.mpr ⟨r, hr, decide_eq_true (((hkey r a).mp hsame).trans hk)⟩
        obtain ⟨b, hb⟩ := Option.isSome_iff_exists.mp hfound
        rw [hb]
        rfl
      · simp [hk]
    · rw [List.find?_append]

end Key

end TfAnalytics.Lib
