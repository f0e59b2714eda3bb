import TfAnalytics.Lib.FirstBy
import Mathlib.Data.List.Nodup

/-!
# Dictionaries

Python's dictionaries as values: the entries in the order in which their keys were inserted,
each key once. `set` keeps the place of a key that is there; a key that was deleted and is set
again comes last.

* `mem_iff_lookup`: an entry is found by its key;
* `Dict.find?_set`, `Dict.find?_erase`: what an update leaves;
* `Dict.look_foldl`, `Dict.raised_foldl`: what a loop over the entries does.
-/

namespace TfAnalytics.Lib

variable {κ β : Type} [DecidableEq κ]

-- ---------------------------------------------------------------------------
-- Lists of entries
-- ---------------------------------------------------------------------------

theorem lookup_isSome_iff_mem {l : List (κ × β)} {k : κ} :
    (l.lookup k).isSome ↔ k ∈ l.map Prod.fst := by
  simp [List.lookup_isSome_iff]

theorem mem_iff_lookup {l : List (κ × β)} (h : (l.map Prod.fst).Nodup) {k : κ} {v : β} :
    (k, v) ∈ l ↔ l.lookup k = some v := by
  induction l with
  | nil => simp
  | cons e rest ih =>
    obtain ⟨k', w⟩ := e
    rw [List.map_cons, List.nodup_cons] at h
    rw [List.mem_cons, ih h.2, List.lookup_cons]
    by_cases hk : k = k'
    · subst hk
      have hnot : ¬ rest.lookup k = some v := fun hv =>
        h.1 (lookup_isSome_iff_mem.mp (by rw [hv]; rfl))
      simp [hnot, eq_comm]
    · rw [beq_eq_false_iff_ne.mpr hk]
      simp [hk]

theorem lookup_map_value {γ : Type} (g : β → γ) (l : List (κ × β)) (k : κ) :
    (l.map fun e => (e.1, g e.2)).lookup k = (l.lookup k).map g := by
  induction l with
  | nil => rfl
  | cons e rest ih =>
    rw [List.map_cons, List.lookup_cons, List.lookup_cons, ih]
    cases k == e.1 <;> rfl

theorem lookup_filterMap_value {γ : Type} (g : β → Option γ) {l : List (κ × β)}
    (h : (l.map Prod.fst).Nodup) (k : κ) :
    (l.filterMap fun e => (g e.2).map (e.1, ·)).lookup k = (l.lookup k).bind g := by
  induction l with
  | nil => rfl
  | cons e rest ih =>
    obtain ⟨k', v⟩ := e
    rw [List.map_cons, List.nodup_cons] at h
    rw [List.filterMap_cons, List.lookup_cons]
    by_cases hk : k = k'
    · subst hk
      have hnone : rest.lookup k = none := by
        rw [← Option.not_isSome_iff_eq_none, lookup_isSome_iff_mem]
        exact h.1
      cases hv : g v with
      | none => simp [ih h.2, hnone, hv]
      | some w => simp [hv]
    · rw [beq_eq_false_iff_ne.mpr hk]
      cases hv : g v with
      | none => exact ih h.2
      | some w =>
        rw [Option.map_some]
        show List.lookup k ((k', w) :: _) = _
        rw [List.lookup_cons, beq_eq_false_iff_ne.mpr hk]
        exact ih h.2

/-- What holds of the entries before a key, said of the keys. -/
theorem forall_before_iff {l : List (κ × β)} (h : (l.map Prod.fst).Nodup) (k : κ) (P : β → Prop) :
    (∀ e ∈ l.takeWhile (·.1 ≠ k), P e.2) ↔
      ∀ k' ∈ (l.map Prod.fst).takeWhile (· ≠ k), ∀ v, l.lookup k' = some v → P v := by
  rw [List.takeWhile_map]
  constructor
  · intro hall k' hk' v hv
    obtain ⟨e, he, rfl⟩ := List.mem_map.mp hk'
    have heq := (mem_iff_lookup h).mp ((List.takeWhile_prefix _).subset he)
    obtain rfl : e.2 = v := Option.some.inj (heq.symm.trans hv)
    exact hall e he
  · intro hall e he
    exact hall e.1 (List.mem_map_of_mem he) e.2
      ((mem_iff_lookup h).mp ((List.takeWhile_prefix _).subset he))

/-- The entry of a key is replaced, or added at the end. -/
def setList (k : κ) (v : β) : List (κ × β) → List (κ × β)
  | [] => [(k, v)]
  | e :: rest => if e.1 = k then (k, v) :: rest else e :: setList k v rest

theorem setList_nil (k : κ) (v : β) : setList k v [] = [(k, v)] := rfl

theorem setList_cons (k : κ) (v : β) (e : κ × β) (rest : List (κ × β)) :
    setList k v (e :: rest) = if e.1 = k then (k, v) :: rest else e :: setList k v rest := rfl

theorem keys_setList (k : κ) (v : β) (l : List (κ × β)) :
    (setList k v l).map Prod.fst =
      if k ∈ l.map Prod.fst then l.map Prod.fst else l.map Prod.fst ++ [k] := by
  induction l with
  | nil => simp [setList_nil]
  | cons e rest ih =>
    rw [setList_cons]
    by_cases hk : e.1 = k
    · rw [if_pos hk, if_pos (by simp [hk])]
      simp [hk]
    · rw [if_neg hk, List.map_cons, ih]
      have hmem : k ∈ (e :: rest).map Prod.fst ↔ k ∈ rest.map Prod.fst := by
        rw [List.map_cons, List.mem_cons]
        exact or_iff_right (Ne.symm hk)
      simp only [hmem]
      split <;> rfl

theorem lookup_setList (k k' : κ) (v : β) (l : List (κ × β)) :
    (setList k v l).lookup k' = if k' = k then some v else l.lookup k' := by
  induction l with
  | nil =>
    rw [setList_nil, List.lookup_cons]
    by_cases hk : k' = k
    · simp [hk]
    · rw [beq_eq_false_iff_ne.mpr hk, if_neg hk]
  | cons e rest ih =>
    rw [setList_cons]
    by_cases hk : e.1 = k
    · subst hk
      rw [if_pos rfl, List.lookup_cons, List.lookup_cons]
      by_cases hk' : k' = e.1
      · simp [hk']
      · rw [beq_eq_false_iff_ne.mpr hk']
        simp [hk']
    · rw [if_neg hk, List.lookup_cons, List.lookup_cons, ih]
      by_cases hk' : k' = e.1
      · have hne : k' ≠ k := fun h => hk (hk'.symm.trans h)
        simp [hk', hk]
      · rw [beq_eq_false_iff_ne.mpr hk']

-- ---------------------------------------------------------------------------
-- Dictionaries
-- ---------------------------------------------------------------------------

structure Dict (κ β : Type) where
  entries : List (κ × β)
  nodup : (entries.map Prod.fst).Nodup

namespace Dict

def empty : Dict κ β := ⟨[], List.nodup_nil⟩

instance : Inhabited (Dict κ β) := ⟨empty⟩

/-- `d.get(k)`. -/
def find? (d : Dict κ β) (k : κ) : Option β := d.entries.lookup k

/-- `d[k] = v`. -/
def set (d : Dict κ β) (k : κ) (v : β) : Dict κ β where
  entries := setList k v d.entries
  nodup := by
    rw [keys_setList]
    split
    · exact d.nodup
    · rename_i hk
      exact List.nodup_append.mpr ⟨d.nodup, List.nodup_singleton k, fun a ha b hb hab =>
        hk (by rw [List.mem_singleton.mp hb] at hab; exact hab ▸ ha)⟩

/-- `del d[k]`, if it is there. -/
def erase (d : Dict κ β) (k : κ) : Dict κ β where
  entries := d.entries.filter fun e => e.1 ≠ k
  nodup := d.nodup.sublist (List.filter_sublist.map _)

/-- `d.update(e)`. -/
def update (d e : Dict κ β) : Dict κ β := e.entries.foldl (fun d p => d.set p.1 p.2) d

@[simp] theorem find?_empty (k : κ) : (empty : Dict κ β).find? k = none := rfl

@[simp] theorem find?_set (d : Dict κ β) (k k' : κ) (v : β) :
    (d.set k v).find? k' = if k' = k then some v else d.find? k' :=
  lookup_setList k k' v d.entries

@[simp] theorem find?_erase (d : Dict κ β) (k k' : κ) :
    (d.erase k).find? k' = if k' = k then none else d.find? k' := by
  by_cases hk : k' = k
  · rw [if_pos hk, ← Option.not_isSome_iff_eq_none, find?, lookup_isSome_iff_mem]
    simp [erase, hk]
  · rw [if_neg hk]
    refine Option.ext fun v => ?_
    rw [find?, find?, ← mem_iff_lookup (d.erase k).nodup, ← mem_iff_lookup d.nodup]
    simp [erase, hk]

/-- The keys are in the order in which they were set first. -/
theorem keys_set {d : Dict κ β} {l : List κ} (h : d.entries.map Prod.fst = distinct l) (k : κ)
    (v : β) : (d.set k v).entries.map Prod.fst = distinct (l ++ [k]) := by
  rw [distinct_snoc, ← h]
  exact keys_setList k v d.entries

theorem keys_erase {d : Dict κ β} {l : List κ} (h : d.entries.map Prod.fst = distinct l) (k : κ) :
    (d.erase k).entries.map Prod.fst = distinct (l.filter (· ≠ k)) := by
  rw [distinct_filter, ← h, List.filter_map]
  rfl

/-- A value that is there is set again. -/
theorem set_of_find? {d : Dict κ β} {k : κ} {v : β} (h : d.find? k = some v) : d.set k v = d := by
  have hlist : ∀ l : List (κ × β), l.lookup k = some v → setList k v l = l := by
    intro l
    induction l with
    | nil => exact fun h => absurd h (by simp)
    | cons e rest ih =>
      obtain ⟨k', w⟩ := e
      rw [List.lookup_cons, setList_cons]
      by_cases hk : k = k'
      · subst hk
        rw [beq_self_eq_true, if_pos rfl]
        intro hw
        rw [Option.some.inj hw]
      · rw [beq_eq_false_iff_ne.mpr hk, if_neg (Ne.symm hk)]
        exact fun h => congrArg _ (ih h)
  obtain ⟨entries, nodup⟩ := d
  have hsame := hlist entries h
  unfold set
  simp only [hsame]

/-- A loop over a dictionary whose turn for a key only touches what the state has of that key. -/
theorem look_foldl {σ γ δ : Type} {f : σ → κ × γ → σ} {look : σ → κ → δ} {g : κ → γ → δ → δ}
    (hf : ∀ s e k, look (f s e) k = if k = e.1 then g k e.2 (look s k) else look s k)
    (d : Dict κ γ) (s : σ) (k : κ) :
    look (d.entries.foldl f s) k =
      (d.find? k).elim (look s k) fun v => g k v (look s k) := by
  have hloop : ∀ (l : List (κ × γ)) (s : σ), (l.map Prod.fst).Nodup →
      look (l.foldl f s) k = (l.lookup k).elim (look s k) fun v => g k v (look s k) := by
    intro l
    induction l with
    | nil => exact fun s _ => rfl
    | cons e l ih =>
      intro s hnodup
      rw [List.map_cons, List.nodup_cons] at hnodup
      rw [List.foldl_cons, ih _ hnodup.2, hf, List.lookup_cons]
      by_cases hk : k = e.1
      · have hnone : l.lookup k = none := by
          rw [← Option.not_isSome_iff_eq_none, lookup_isSome_iff_mem, hk]
          exact hnodup.1
        rw [hnone, if_pos hk, beq_iff_eq.mpr hk]
        rfl
      · rw [if_neg hk, beq_eq_false_iff_ne.mpr hk]
  exact hloop d.entries s d.nodup

/-- The same for a flag: it is raised at the end if it was, or the turn of a key raises it. -/
theorem raised_foldl {σ γ δ : Type} {f : σ → κ × γ → σ} {look : σ → κ → δ} {raised : σ → Prop}
    {c : κ → γ → δ → Prop} (hlook : ∀ s e k, k ≠ e.1 → look (f s e) k = look s k)
    (hraise : ∀ s e, raised (f s e) ↔ raised s ∨ c e.1 e.2 (look s e.1)) (d : Dict κ γ) (s : σ) :
    raised (d.entries.foldl f s) ↔ raised s ∨ ∃ k v, d.find? k = some v ∧ c k v (look s k) := by
  have hloop : ∀ (l : List (κ × γ)) (s : σ), (l.map Prod.fst).Nodup →
      (raised (l.foldl f s) ↔ raised s ∨ ∃ e ∈ l, c e.1 e.2 (look s e.1)) := by
    intro l
    induction l with
    | nil => simp
    | cons e l ih =>
      intro s hnodup
      rw [List.map_cons, List.nodup_cons] at hnodup
      have hrest : (∃ e' ∈ l, c e'.1 e'.2 (look (f s e) e'.1)) ↔
          ∃ e' ∈ l, c e'.1 e'.2 (look s e'.1) := by
        refine exists_congr fun e' => and_congr_right fun he' => ?_
        rw [hlook]
        exact fun heq => hnodup.1 (heq ▸ List.mem_map_of_mem he')
      rw [List.foldl_cons, ih _ hnodup.2, hraise, hrest, or_assoc, List.exists_mem_cons_iff]
  rw [hloop d.entries s d.nodup]
  simp only [Prod.exists, find?, ← mem_iff_lookup d.nodup]

@[simp] theorem find?_update (d e : Dict κ β) (k : κ) :
    (d.update e).find? k = (e.find? k).or (d.find? k) := by
  have hset : ∀ (d : Dict κ β) (p : κ × β) (k : κ),
      (d.set p.1 p.2).find? k = if k = p.1 then some p.2 else d.find? k :=
    fun d p k => find?_set d p.1 k p.2
  rw [update, @look_foldl κ _ _ β _ _ find? (fun _ v _ => some v) hset e d k]
  cases e.find? k <;> rfl

/-- A loop over keys that sets some of them. -/
theorem find?_foldl_or {f : Dict κ β → κ → Dict κ β} {o : κ → Option β}
    (hf : ∀ d k k', (f d k').find? k = if k = k' then (o k).or (d.find? k) else d.find? k)
    (l : List κ) (d : Dict κ β) (k : κ) :
    (l.foldl f d).find? k = if k ∈ l then (o k).or (d.find? k) else d.find? k := by
  induction l generalizing d with
  | nil => simp
  | cons k' l ih =>
    rw [List.foldl_cons, ih, hf]
    by_cases hk : k = k'
    · subst hk
      cases o k <;> simp
    · simp [hk]

theorem mem_entries {d : Dict κ β} {k : κ} {v : β} : (k, v) ∈ d.entries ↔ d.find? k = some v :=
  mem_iff_lookup d.nodup

end Dict

end TfAnalytics.Lib
