import TfAnalytics.Lib.OrderedMap

/-!
# Ordered multimaps

`std::multimap` as a value: the entries in key order, equal keys in insertion
order. `find?` is the first entry of a key, `insert` goes behind the entries of
the same key.

`mergeEntry` is the one update pattern this library is about: look a key up,
combine with the entry found if it belongs to the same group, insert
otherwise. When the key is a function of the group that separates the groups
at hand (`Keyed`), the multimap behaves like a map from groups to combined
values (`keyed_mergeEntry`); that is what a proof about a sequence of updates
wants to work with.

The last section is about truncation. Cutting strictly sorted lists to their
first `n` entries commutes with taking unions as long as nothing of the first
`n` of the union was cut (`take_eq_of_subset`, `mem_take_of_subset`).
-/

namespace TfAnalytics.Lib

variable {κ β υ : Type} [LinearOrder κ]

-- ---------------------------------------------------------------------------
-- List level
-- ---------------------------------------------------------------------------

/-- Weakly increasing keys. -/
def KeysLe (l : List (κ × β)) : Prop := l.Pairwise fun a b => a.1 ≤ b.1

theorem KeysLt.keysLe {l : List (κ × β)} (h : KeysLt l) : KeysLe l := h.imp fun hab => le_of_lt hab

/-- Insert behind the entries with a key up to `k`. -/
def insertUpper (k : κ) (v : β) : List (κ × β) → List (κ × β)
  | [] => [(k, v)]
  | (k', v') :: rest =>
    if k < k' then (k, v) :: (k', v') :: rest else (k', v') :: insertUpper k v rest

/-- Replace the value of the first entry of `k`. -/
def replaceFirst (k : κ) (v : β) : List (κ × β) → List (κ × β)
  | [] => []
  | (k', v') :: rest => if k = k' then (k', v) :: rest else (k', v') :: replaceFirst k v rest

theorem insertUpper_perm (k : κ) (v : β) (l : List (κ × β)) :
    (insertUpper k v l).Perm ((k, v) :: l) := by
  induction l with
  | nil => exact List.Perm.refl _
  | cons hd rest ih =>
    rw [insertUpper]
    split
    · exact List.Perm.refl _
    · exact (ih.cons hd).trans (List.Perm.swap _ _ _)

theorem keysLe_insertUpper {k : κ} {v : β} {l : List (κ × β)} (h : KeysLe l) :
    KeysLe (insertUpper k v l) := by
  induction l with
  | nil => exact List.pairwise_singleton _ _
  | cons hd rest ih =>
    obtain ⟨k', v'⟩ := hd
    obtain ⟨hhd, hrest⟩ := List.pairwise_cons.mp h
    rw [insertUpper]
    split
    · rename_i hlt
      refine List.pairwise_cons.mpr ⟨?_, h⟩
      intro e he
      rcases List.mem_cons.mp he with rfl | he
      · exact le_of_lt hlt
      · exact le_trans (le_of_lt hlt) (hhd e he)
    · rename_i hlt
      refine List.pairwise_cons.mpr ⟨?_, ih hrest⟩
      intro e he
      rcases List.mem_cons.mp ((insertUpper_perm k v rest).mem_iff.mp he) with rfl | he
      · exact not_lt.mp hlt
      · exact hhd e he

theorem keysLe_orderedInsert {k : κ} {v : β} {l : List (κ × β)} (h : KeysLe l) :
    KeysLe (l.orderedInsert (fun a b => a.1 ≤ b.1) (k, v)) := by
  induction l with
  | nil => exact List.pairwise_singleton _ _
  | cons hd rest ih =>
    obtain ⟨hhd, hrest⟩ := List.pairwise_cons.mp h
    rw [List.orderedInsert_cons]
    split
    · rename_i hle
      refine List.pairwise_cons.mpr ⟨?_, h⟩
      intro e he
      rcases List.mem_cons.mp he with rfl | he
      · exact hle
      · exact le_trans hle (hhd e he)
    · rename_i hle
      refine List.pairwise_cons.mpr ⟨?_, ih hrest⟩
      intro e he
      rcases (List.mem_orderedInsert _).mp he with rfl | he
      · exact le_of_lt (not_le.mp hle)
      · exact hhd e he

theorem replaceFirst_keys (k : κ) (v : β) (l : List (κ × β)) :
    (replaceFirst k v l).map Prod.fst = l.map Prod.fst := by
  induction l with
  | nil => rfl
  | cons hd rest ih =>
    rw [replaceFirst]
    split
    · rfl
    · rw [List.map_cons, List.map_cons, ih]

theorem pairwise_replaceFirst {R : κ → κ → Prop} {k : κ} {v : β} {l : List (κ × β)}
    (h : l.Pairwise fun a b => R a.1 b.1) :
    (replaceFirst k v l).Pairwise fun a b => R a.1 b.1 := by
  have hmap : (l.map Prod.fst).Pairwise R := List.pairwise_map.mpr h
  rw [← replaceFirst_keys k v l] at hmap
  exact List.pairwise_map.mp hmap

theorem keysLt_insertUpper {k : κ} {v : β} {l : List (κ × β)} (h : KeysLt l)
    (hnone : findList k l = none) : KeysLt (insertUpper k v l) := by
  have hle := keysLe_insertUpper (k := k) (v := v) h.keysLe
  have hnd : (insertUpper k v l).Pairwise fun a b => a.1 ≠ b.1 := by
    have hl : ((k, v) :: l).Pairwise fun a b => a.1 ≠ b.1 := by
      refine List.pairwise_cons.mpr ⟨?_, h.imp ne_of_lt⟩
      rintro ⟨k', v'⟩ he heq
      have hsome := (mem_iff_findList h).mp he
      rw [← show k = k' from heq, hnone] at hsome
      cases hsome
    exact hl.perm (insertUpper_perm k v l).symm fun hab => Ne.symm hab
  exact hle.and hnd |>.imp fun hab => lt_of_le_of_ne hab.1 hab.2

theorem findList_replaceFirst {k k' : κ} {v v₀ : β} {l : List (κ × β)}
    (hfind : findList k l = some v₀) :
    findList k' (replaceFirst k v l) = if k' = k then some v else findList k' l := by
  induction l with
  | nil => cases hfind
  | cons hd rest ih =>
    obtain ⟨kh, vh⟩ := hd
    rw [findList] at hfind
    rw [replaceFirst]
    by_cases hk : k = kh
    · subst hk
      rw [if_pos rfl]
      simp only [findList]
      by_cases hk' : k' = k
      · simp [hk']
      · simp [hk']
    · rw [if_neg hk] at hfind
      rw [if_neg hk]
      simp only [findList]
      rw [ih hfind]
      by_cases hk' : k' = kh
      · have : k' ≠ k := fun h => hk (h.symm.trans hk')
        simp [hk', Ne.symm hk]
      · simp [hk']

/-- The first entry of a key stays the first. -/
theorem findList_insertUpper {k k' : κ} {v : β} {l : List (κ × β)} (h : KeysLe l) :
    findList k' (insertUpper k v l) = (findList k' l).or (if k' = k then some v else none) := by
  induction l with
  | nil => rfl
  | cons hd rest ih =>
    obtain ⟨kh, vh⟩ := hd
    obtain ⟨hhd, hrest⟩ := List.pairwise_cons.mp h
    rw [insertUpper]
    by_cases hlt : k < kh
    · rw [if_pos hlt]
      by_cases hk : k' = k
      · -- all entries have greater keys
        have hnone : findList k' ((kh, vh) :: rest) = none := by
          refine findList_eq_none_of_lt fun e he => ?_
          rw [hk]
          rcases List.mem_cons.mp he with rfl | he
          · exact hlt
          · exact lt_of_lt_of_le hlt (hhd e he)
        rw [hnone, findList, if_pos hk, if_pos hk]
        rfl
      · rw [findList, if_neg hk, if_neg hk, Option.or_none]
    · rw [if_neg hlt, findList, findList, ih hrest]
      split
      · rfl
      · rfl

-- ---------------------------------------------------------------------------
-- The multimap
-- ---------------------------------------------------------------------------

structure Multimap (κ β : Type) [LinearOrder κ] where
  entries : List (κ × β)
  sorted : KeysLe entries

namespace Multimap

theorem ext_entries {m m' : Multimap κ β} (h : m.entries = m'.entries) : m = m' := by
  cases m; cases m'; cases h; rfl

instance [DecidableEq β] : DecidableEq (Multimap κ β) := fun m m' =>
  decidable_of_iff (m.entries = m'.entries) ⟨ext_entries, fun h => h ▸ rfl⟩

def empty : Multimap κ β := ⟨[], List.Pairwise.nil⟩

instance : Inhabited (Multimap κ β) := ⟨empty⟩

def size (m : Multimap κ β) : Nat := m.entries.length

def find? (m : Multimap κ β) (k : κ) : Option β := findList k m.entries

def insert (m : Multimap κ β) (k : κ) (v : β) : Multimap κ β :=
  ⟨insertUpper k v m.entries, keysLe_insertUpper m.sorted⟩

def replace (m : Multimap κ β) (k : κ) (v : β) : Multimap κ β :=
  ⟨replaceFirst k v m.entries, pairwise_replaceFirst m.sorted⟩

/-- Keep the first `n` entries. -/
def truncate (m : Multimap κ β) (n : Nat) : Multimap κ β :=
  ⟨m.entries.take n, List.Pairwise.sublist (List.take_sublist n _) m.sorted⟩

/-- Combine with the first entry of the key when it is of the same group,
insert otherwise. -/
def mergeEntry (same : β → β → Bool) (merge : β → β → Option β) (m : Multimap κ β) (k : κ)
    (b : β) : Option (Multimap κ β) :=
  match m.find? k with
  | none => some (m.insert k b)
  | some b₀ => if same b₀ b then (merge b₀ b).map (m.replace k) else some (m.insert k b)

/-- Insert in front of the entries with a key from `k` on. -/
def insertLower (m : Multimap κ β) (k : κ) (v : β) : Multimap κ β :=
  ⟨m.entries.orderedInsert (fun a b => a.1 ≤ b.1) (k, v), keysLe_orderedInsert m.sorted⟩

theorem size_insertLower (m : Multimap κ β) (k : κ) (v : β) :
    (m.insertLower k v).size = m.size + 1 :=
  List.orderedInsert_length _ m.entries (k, v)

theorem mem_insert {m : Multimap κ β} {k : κ} {v : β} {e : κ × β} :
    e ∈ (m.insert k v).entries ↔ e = (k, v) ∨ e ∈ m.entries := by
  rw [← List.mem_cons]
  exact (insertUpper_perm k v m.entries).mem_iff

theorem size_insert (m : Multimap κ β) (k : κ) (v : β) : (m.insert k v).size = m.size + 1 :=
  (insertUpper_perm k v m.entries).length_eq

theorem size_replace (m : Multimap κ β) (k : κ) (v : β) : (m.replace k v).size = m.size := by
  have h := congrArg List.length (replaceFirst_keys k v m.entries)
  rwa [List.length_map, List.length_map] at h

/-- One update adds at most one entry. -/
theorem mergeEntry_size {same : β → β → Bool} {merge : β → β → Option β} {m m' : Multimap κ β}
    {k : κ} {b : β} (h : m.mergeEntry same merge k b = some m') :
    m.size ≤ m'.size ∧ m'.size ≤ m.size + 1 := by
  unfold mergeEntry at h
  split at h
  · injection h with h
    subst h
    rw [size_insert]
    omega
  · split at h
    · obtain ⟨b', -, rfl⟩ := Option.map_eq_some_iff.mp h
      rw [size_replace]
      omega
    · injection h with h
      subst h
      rw [size_insert]
      omega

theorem mem_replaceFirst {k : κ} {v : β} {l : List (κ × β)} {e : κ × β}
    (he : e ∈ replaceFirst k v l) : e = (k, v) ∨ e ∈ l := by
  induction l with
  | nil => exact absurd he (by simp [replaceFirst])
  | cons hd rest ih =>
    rw [replaceFirst] at he
    split at he
    · rename_i hk
      rcases List.mem_cons.mp he with rfl | he
      · exact .inl (by rw [hk])
      · exact .inr (List.mem_cons_of_mem _ he)
    · rcases List.mem_cons.mp he with rfl | he
      · exact .inr List.mem_cons_self
      · exact (ih he).imp id (List.mem_cons_of_mem _)

/-- An update keeps what holds of all entries and of the new one, if combining two
entries of a key does. -/
theorem mergeEntry_forall {same : β → β → Bool} {merge : β → β → Option β} {P : κ × β → Prop}
    {m : Multimap κ β} {k : κ} {b : β} (hm : ∀ e ∈ m.entries, P e) (hb : P (k, b))
    (hmerge : ∀ b₀, P (k, b₀) → same b₀ b = true → ∃ b₁, merge b₀ b = some b₁ ∧ P (k, b₁)) :
    ∃ m', m.mergeEntry same merge k b = some m' ∧ ∀ e ∈ m'.entries, P e := by
  have hinsert : ∀ e ∈ (m.insert k b).entries, P e := by
    intro e he
    rcases mem_insert.mp he with rfl | he
    · exact hb
    · exact hm e he
  unfold mergeEntry
  cases hfind : m.find? k with
  | none => exact ⟨_, rfl, hinsert⟩
  | some b₀ =>
    simp only
    by_cases hsame : same b₀ b = true
    · obtain ⟨b₁, hb₁, hP⟩ := hmerge b₀ (hm _ (mem_of_findList hfind)) hsame
      refine ⟨m.replace k b₁, by rw [if_pos hsame, hb₁]; rfl, fun e he => ?_⟩
      rcases mem_replaceFirst he with rfl | he
      · exact hP
      · exact hm e he
    · exact ⟨_, by rw [if_neg hsame], hinsert⟩

-- ---------------------------------------------------------------------------
-- Multimaps keyed by group
-- ---------------------------------------------------------------------------

/-- Each group has one entry, stored under the group's key. -/
structure Keyed (key : υ → κ) (group : β → υ) (m : Multimap κ β) : Prop where
  strict : KeysLt m.entries
  key_eq : ∀ e ∈ m.entries, e.1 = key (group e.2)

theorem keyed_empty (key : υ → κ) (group : β → υ) :
    Keyed key group (empty : Multimap κ β) :=
  ⟨List.Pairwise.nil, fun _ he => absurd he (by simp [empty])⟩

section Keyed

variable {key : υ → κ} {group : β → υ} {m : Multimap κ β} (hm : Keyed key group m)
include hm

/-- A group has its entry under its key. -/
theorem Keyed.eq_of_group {b b₀ : β} (hfind : m.find? (key (group b)) = some b₀) {e : κ × β}
    (he : e ∈ m.entries) (hgroup : group e.2 = group b) : e = (key (group b), b₀) := by
  have hsome : findList e.1 m.entries = some e.2 := (mem_iff_findList hm.strict).mp he
  have hk : e.1 = key (group b) := by rw [hm.key_eq e he, hgroup]
  rw [hk, show findList (key (group b)) m.entries = some b₀ from hfind] at hsome
  exact Prod.ext hk (Option.some.inj hsome).symm

theorem Keyed.group_ne {b : β} (hfind : m.find? (key (group b)) = none) {e : κ × β}
    (he : e ∈ m.entries) : group e.2 ≠ group b := by
  intro heq
  have hsome : findList e.1 m.entries = some e.2 := (mem_iff_findList hm.strict).mp he
  rw [hm.key_eq e he, heq] at hsome
  rw [find?, hsome] at hfind
  cases hfind

theorem Keyed.insert {b : β} (hfind : m.find? (key (group b)) = none) :
    Keyed key group (m.insert (key (group b)) b) := by
  refine ⟨keysLt_insertUpper hm.strict hfind, fun e he => ?_⟩
  rcases mem_insert.mp he with rfl | he
  · rfl
  · exact hm.key_eq e he

/-- The entries after the entry of a group was replaced. -/
theorem Keyed.mem_replace {b b₀ : β} (b₁ : β) (hfind : m.find? (key (group b)) = some b₀)
    (hsep : ∀ e ∈ m.entries, key (group e.2) = key (group b) → group e.2 = group b) (e : κ × β) :
    e ∈ (m.replace (key (group b)) b₁).entries ↔
      (e ∈ m.entries ∧ group e.2 ≠ group b) ∨ e = (key (group b), b₁) := by
  have hstrict : KeysLt (m.replace (key (group b)) b₁).entries := pairwise_replaceFirst hm.strict
  rw [show e ∈ (m.replace (key (group b)) b₁).entries ↔ _ from mem_iff_findList hstrict]
  change findList e.1 (replaceFirst (key (group b)) b₁ m.entries) = some e.2 ↔ _
  rw [findList_replaceFirst hfind]
  by_cases hk : e.1 = key (group b)
  · rw [if_pos hk]
    constructor
    · intro h
      exact Or.inr (Prod.ext hk (Option.some.inj h).symm)
    · rintro (⟨he, hne⟩ | rfl)
      · have hkey := hm.key_eq e he
        rw [hk] at hkey
        exact absurd (hsep e he hkey.symm) hne
      · rfl
  · rw [if_neg hk, ← show e ∈ m.entries ↔ _ from mem_iff_findList hm.strict]
    constructor
    · intro he
      refine Or.inl ⟨he, fun hge => hk ?_⟩
      rw [hm.key_eq e he, hge]
    · rintro (⟨he, -⟩ | rfl)
      · exact he
      · exact absurd rfl hk

theorem Keyed.replace {b b₀ b₁ : β} (hfind : m.find? (key (group b)) = some b₀)
    (hsep : ∀ e ∈ m.entries, key (group e.2) = key (group b) → group e.2 = group b)
    (hgroup : group b₁ = group b) : Keyed key group (m.replace (key (group b)) b₁) := by
  refine ⟨pairwise_replaceFirst hm.strict, fun e he => ?_⟩
  rcases (hm.mem_replace b₁ hfind hsep e).mp he with ⟨he, -⟩ | rfl
  · exact hm.key_eq e he
  · rw [hgroup]

/-- What an update does to a keyed multimap, when the key of the new entry's
group is not also the key of another group in it. -/
theorem keyed_mergeEntry {same : β → β → Bool} {merge : β → β → Option β} {b : β}
    (hsame : ∀ b₀, same b₀ b = true ↔ group b₀ = group b)
    (hgroup : ∀ b₀ b₁, merge b₀ b = some b₁ → group b₁ = group b₀)
    (hsep : ∀ e ∈ m.entries, key (group e.2) = key (group b) → group e.2 = group b)
    (hmerge : ∀ e ∈ m.entries, group e.2 = group b → (merge e.2 b).isSome) :
    ∃ m', m.mergeEntry same merge (key (group b)) b = some m' ∧ Keyed key group m' ∧
      ∀ e, e ∈ m'.entries ↔ (e ∈ m.entries ∧ group e.2 ≠ group b) ∨
        (e.1 = key (group b) ∧
          ((e.2 = b ∧ ∀ e₀ ∈ m.entries, group e₀.2 ≠ group b) ∨
            ∃ e₀ ∈ m.entries, group e₀.2 = group b ∧ merge e₀.2 b = some e.2)) := by
  unfold mergeEntry
  cases hfind : m.find? (key (group b)) with
  | none =>
    -- a new group
    have hfresh : ∀ e ∈ m.entries, group e.2 ≠ group b := fun e he => hm.group_ne hfind he
    refine ⟨_, rfl, hm.insert hfind, fun e => ?_⟩
    rw [mem_insert]
    constructor
    · rintro (rfl | he)
      · exact Or.inr ⟨rfl, Or.inl ⟨rfl, hfresh⟩⟩
      · exact Or.inl ⟨he, hfresh e he⟩
    · rintro (⟨he, -⟩ | ⟨hk, ⟨hb, -⟩ | ⟨e₀, he₀, heq, -⟩⟩)
      · exact Or.inr he
      · exact Or.inl (Prod.ext hk hb)
      · exact absurd heq (hfresh e₀ he₀)
  | some b₀ =>
    -- the group's own entry
    have hb₀ : (key (group b), b₀) ∈ m.entries := (mem_iff_findList hm.strict).mpr hfind
    have heq : group b₀ = group b := hsep _ hb₀ (hm.key_eq _ hb₀).symm
    obtain ⟨b₁, hb₁⟩ := Option.isSome_iff_exists.mp (hmerge _ hb₀ heq)
    refine ⟨m.replace (key (group b)) b₁, ?_,
      hm.replace hfind hsep ((hgroup _ _ hb₁).trans heq), fun e => ?_⟩
    · simp only
      rw [if_pos ((hsame b₀).mpr heq), hb₁]
      rfl
    · rw [hm.mem_replace b₁ hfind hsep]
      constructor
      · rintro (h | rfl)
        · exact Or.inl h
        · exact Or.inr ⟨rfl, Or.inr ⟨_, hb₀, heq, hb₁⟩⟩
      · rintro (h | ⟨hk, ⟨-, hfresh⟩ | ⟨e₀, he₀, hge, hmer⟩⟩)
        · exact Or.inl h
        · exact absurd heq (hfresh _ hb₀)
        · obtain rfl := hm.eq_of_group hfind he₀ hge
          rw [hb₁] at hmer
          exact Or.inr (Prod.ext hk (Option.some.inj hmer).symm)

end Keyed

end Multimap

-- ---------------------------------------------------------------------------
-- Truncation
-- ---------------------------------------------------------------------------

theorem KeysLt.eq_of_mem {l : List (κ × β)} (h : KeysLt l) {e e' : κ × β} (he : e ∈ l)
    (he' : e' ∈ l) (hk : e.1 = e'.1) : e = e' := by
  have h₁ := (mem_iff_findList h).mp he
  have h₂ := (mem_iff_findList h).mp he'
  rw [hk, h₂] at h₁
  exact Prod.ext hk (Option.some.inj h₁).symm

/-- An entry whose key is among the first `n` keys is among the first `n`
entries. -/
theorem KeysLt.mem_take {l : List (κ × β)} (h : KeysLt l) {e : κ × β} {n : Nat} (he : e ∈ l)
    (hk : e.1 ∈ (l.map Prod.fst).take n) : e ∈ l.take n := by
  rw [← List.map_take] at hk
  obtain ⟨e', he', heq⟩ := List.mem_map.mp hk
  rw [h.eq_of_mem he (List.mem_of_mem_take he') heq.symm]
  exact he'

/-- Lists with the same keys, one part of the other, are equal. -/
theorem KeysLt.eq_of_subset {l l' : List (κ × β)} (h : KeysLt l) (h' : KeysLt l')
    (hk : l.map Prod.fst = l'.map Prod.fst) (hsub : ∀ e ∈ l, e ∈ l') : l = l' := by
  refine eq_of_keysLt h h' fun e => ⟨hsub e, fun he => ?_⟩
  have hkey : e.1 ∈ l.map Prod.fst := hk ▸ List.mem_map_of_mem he
  obtain ⟨e₀, he₀, heq⟩ := List.mem_map.mp hkey
  rw [← h'.eq_of_mem (hsub e₀ he₀) he heq]
  exact he₀

/-- If `A` is part of `B` and holds the first `n` of `B`, both have the same
first `n`. -/
theorem take_eq_of_subset {A B : List κ} (hA : A.Pairwise (· < ·)) (hB : B.Pairwise (· < ·))
    {n : Nat} (hAB : ∀ x ∈ A, x ∈ B) (hBA : ∀ x ∈ B.take n, x ∈ A) : A.take n = B.take n := by
  induction B generalizing A n with
  | nil =>
    have : A = [] := List.eq_nil_iff_forall_not_mem.mpr fun x hx => absurd (hAB x hx) (by simp)
    rw [this]
  | cons b B ih =>
    cases n with
    | zero => rfl
    | succ n =>
      have hb : b ∈ A := hBA b (by simp)
      obtain ⟨hbB, hB'⟩ := List.pairwise_cons.mp hB
      cases A with
      | nil => exact absurd hb (by simp)
      | cons a A =>
        obtain ⟨haA, hA'⟩ := List.pairwise_cons.mp hA
        have hab : a = b := by
          rcases List.mem_cons.mp hb with h | h
          · exact h.symm
          · rcases List.mem_cons.mp (hAB a (List.mem_cons_self ..)) with h' | h'
            · exact h'
            · exact absurd (lt_trans (haA b h) (hbB a h')) (lt_irrefl _)
        subst hab
        rw [List.take_succ_cons, List.take_succ_cons]
        congr 1
        refine ih hA' hB' ?_ ?_
        · intro x hx
          rcases List.mem_cons.mp (hAB x (List.mem_cons_of_mem _ hx)) with rfl | h
          · exact absurd (haA x hx) (lt_irrefl _)
          · exact h
        · intro x hx
          have hxB := List.mem_of_mem_take hx
          rcases List.mem_cons.mp (hBA x (by simp [hx])) with rfl | h
          · exact absurd (hbB x hxB) (lt_irrefl _)
          · exact h

/-- A member of the first `n` of `B` is among the first `n` of every part of
`B` it is in. -/
theorem mem_take_of_subset {A B : List κ} (hA : A.Pairwise (· < ·)) (hB : B.Pairwise (· < ·))
    {n : Nat} (hAB : ∀ x ∈ A, x ∈ B) {x : κ} (hxA : x ∈ A) (hxB : x ∈ B.take n) :
    x ∈ A.take n := by
  induction B generalizing A n with
  | nil => exact absurd hxB (by simp)
  | cons b B ih =>
    cases n with
    | zero => exact absurd hxB (by simp)
    | succ n =>
      obtain ⟨hbB, hB'⟩ := List.pairwise_cons.mp hB
      cases A with
      | nil => exact absurd hxA (by simp)
      | cons a A =>
        obtain ⟨haA, hA'⟩ := List.pairwise_cons.mp hA
        rw [List.take_succ_cons]
        rcases List.mem_cons.mp hxA with rfl | hxA'
        · exact List.mem_cons_self ..
        · -- `x` comes after `a`, so after `b`
          have hsub : ∀ y ∈ A, y ∈ B := by
            intro y hy
            rcases List.mem_cons.mp (hAB y (List.mem_cons_of_mem _ hy)) with rfl | h
            · rcases List.mem_cons.mp (hAB a (List.mem_cons_self ..)) with rfl | h'
              · exact absurd (haA a hy) (lt_irrefl _)
              · exact absurd (lt_trans (haA y hy) (hbB a h')) (lt_irrefl _)
            · exact h
          rw [List.take_succ_cons] at hxB
          have hxB' : x ∈ B.take n := by
            rcases List.mem_cons.mp hxB with rfl | h
            · exact absurd (hbB x (hsub x hxA')) (lt_irrefl _)
            · exact h
          exact List.mem_cons_of_mem _ (ih hA' hB' hsub hxA' hxB')

end TfAnalytics.Lib
