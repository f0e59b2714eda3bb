import TfAnalytics.Lib.Multimap
import Mathlib.Data.List.Induction

/-!
# Multimaps of group totals

A keyed multimap whose entry for each group is a total of the contributions
made to that group so far. What a total is, is left open: `IsTotal` asks that
totals of two lists of contributions merge into a total of the first list
followed by the second.

`Represents m cs` says that `m` holds exactly the totals of `cs`. Merging an
entry (`represents_mergeEntry`) or a whole multimap (`represents_mergeAll`)
appends contributions, truncation drops the contributions of the groups cut off
(`represents_truncate`), and two multimaps whose contributions are the same up
to order agree in everything a total determines regardless of order
(`represents_unique`). So a proof about a sequence of merges only has to follow
one list.

Where keys do not tell groups apart, `groups_mergeAll` says when a group still
has one entry.
-/

namespace TfAnalytics.Lib

variable {κ β υ γ : Type} [LinearOrder κ] [DecidableEq υ]

/-- `Total cs b`: the entry `b` is a total of the contributions `cs`, all of
its group. -/
structure IsTotal (group : β → υ) (cgroup : γ → υ) (merge : β → β → Option β)
    (Total : List γ → β → Prop) : Prop where
  ne_nil : ∀ {cs b}, Total cs b → cs ≠ []
  group_eq : ∀ {cs b}, Total cs b → ∀ c ∈ cs, cgroup c = group b
  merge_group : ∀ {b b' b''}, merge b b' = some b'' → group b'' = group b
  merge_total : ∀ {cs cs' b b'}, Total cs b → Total cs' b' → group b = group b' →
    ∃ b'', merge b b' = some b'' ∧ Total (cs ++ cs') b''

/-- The contributions of one group. -/
def ofGroup (cgroup : γ → υ) (u : υ) (cs : List γ) : List γ := cs.filter fun c => cgroup c = u

theorem ofGroup_append (cgroup : γ → υ) (u : υ) (cs cs' : List γ) :
    ofGroup cgroup u (cs ++ cs') = ofGroup cgroup u cs ++ ofGroup cgroup u cs' :=
  List.filter_append ..

theorem mem_ofGroup {cgroup : γ → υ} {u : υ} {cs : List γ} {c : γ} :
    c ∈ ofGroup cgroup u cs ↔ c ∈ cs ∧ cgroup c = u := by
  simp [ofGroup]

theorem ofGroup_perm {cgroup : γ → υ} {u : υ} {cs cs' : List γ} (h : cs.Perm cs') :
    (ofGroup cgroup u cs).Perm (ofGroup cgroup u cs') :=
  h.filter _

theorem ofGroup_eq_nil {cgroup : γ → υ} {u : υ} {cs : List γ} (h : ∀ c ∈ cs, cgroup c ≠ u) :
    ofGroup cgroup u cs = [] := by
  refine List.filter_eq_nil_iff.mpr ?_
  intro c hc
  simpa using h c hc

theorem ofGroup_eq_self {cgroup : γ → υ} {u : υ} {cs : List γ} (h : ∀ c ∈ cs, cgroup c = u) :
    ofGroup cgroup u cs = cs := by
  refine List.filter_eq_self.mpr ?_
  intro c hc
  simpa using h c hc

structure Represents (key : υ → κ) (group : β → υ) (cgroup : γ → υ)
    (Total : List γ → β → Prop) (m : Multimap κ β) (cs : List γ) : Prop where
  keyed : m.Keyed key group
  total : ∀ e ∈ m.entries, Total (ofGroup cgroup (group e.2) cs) e.2
  covered : ∀ c ∈ cs, ∃ e ∈ m.entries, group e.2 = cgroup c

section

variable {key : υ → κ} {group : β → υ} {cgroup : γ → υ} {Total : List γ → β → Prop}
  {merge : β → β → Option β} {same : β → β → Bool}

theorem represents_empty : Represents key group cgroup Total (.empty : Multimap κ β) [] :=
  ⟨Multimap.keyed_empty key group, fun _ he => absurd he (by simp [Multimap.empty]),
    fun _ hc => absurd hc (by simp)⟩

/-- Only the contributions of each group, in their order, matter. -/
theorem Represents.congr {m : Multimap κ β} {cs cs' : List γ}
    (h : Represents key group cgroup Total m cs)
    (heq : ∀ u, ofGroup cgroup u cs' = ofGroup cgroup u cs) :
    Represents key group cgroup Total m cs' := by
  refine ⟨h.keyed, fun e he => (heq _).symm ▸ h.total e he, fun c hc => h.covered c ?_⟩
  have hmem : c ∈ ofGroup cgroup (cgroup c) cs' := mem_ofGroup.mpr ⟨hc, rfl⟩
  rw [heq] at hmem
  exact (mem_ofGroup.mp hmem).1

/-- The groups in the multimap are groups of contributions. -/
theorem Represents.exists_contribution (hT : IsTotal group cgroup merge Total) {m : Multimap κ β}
    {cs : List γ} (h : Represents key group cgroup Total m cs) {e : κ × β} (he : e ∈ m.entries) :
    ∃ c ∈ cs, cgroup c = group e.2 := by
  obtain ⟨c, hc⟩ := List.exists_mem_of_ne_nil _ (hT.ne_nil (h.total e he))
  exact ⟨c, mem_ofGroup.mp hc⟩

/-- Merging a total into the multimap appends its contributions. -/
theorem represents_mergeEntry (hT : IsTotal group cgroup merge Total)
    (hsame : ∀ b b', same b b' = true ↔ group b = group b') {m : Multimap κ β} {cs ds : List γ}
    {b : β} (h : Represents key group cgroup Total m cs) (hb : Total ds b)
    (hsep : ∀ c ∈ cs, key (cgroup c) = key (group b) → cgroup c = group b) :
    ∃ m', m.mergeEntry same merge (key (group b)) b = some m' ∧
      Represents key group cgroup Total m' (cs ++ ds) := by
  have hsep' : ∀ e ∈ m.entries, key (group e.2) = key (group b) → group e.2 = group b := by
    intro e he hk
    obtain ⟨c, hc, hce⟩ := h.exists_contribution hT he
    rw [← hce] at hk ⊢
    exact hsep c hc hk
  have hmerge : ∀ e ∈ m.entries, group e.2 = group b → (merge e.2 b).isSome := by
    intro e he hg
    obtain ⟨b'', hb'', -⟩ := hT.merge_total (h.total e he) hb hg
    rw [hb'']
    rfl
  obtain ⟨m', hm', hkeyed, hmem⟩ := Multimap.keyed_mergeEntry h.keyed (fun b₀ => hsame b₀ b)
    (fun b₀ b₁ hb₁ => hT.merge_group hb₁) hsep' hmerge
  have hds : ofGroup cgroup (group b) ds = ds := ofGroup_eq_self (hT.group_eq hb)
  refine ⟨m', hm', hkeyed, ?_, ?_⟩
  · intro e he
    rw [ofGroup_append]
    rcases (hmem e).mp he with ⟨he', hne⟩ | ⟨-, ⟨heb, hfresh⟩ | ⟨e₀, he₀, hg, hmer⟩⟩
    · -- another group: nothing is added to it
      have hnil : ofGroup cgroup (group e.2) ds = [] :=
        ofGroup_eq_nil fun c hc hce => hne (hce.symm.trans (hT.group_eq hb c hc))
      rw [hnil, List.append_nil]
      exact h.total e he'
    · -- a new group: nothing was there before
      have hnil : ofGroup cgroup (group b) cs = [] := by
        refine ofGroup_eq_nil fun c hc hce => ?_
        obtain ⟨e₀, he₀, hg⟩ := h.covered c hc
        exact hfresh e₀ he₀ (hg.trans hce)
      rw [heb, hnil, hds, List.nil_append]
      exact hb
    · obtain ⟨b'', hb'', htot⟩ := hT.merge_total (h.total e₀ he₀) hb hg
      rw [hmer] at hb''
      have he2 : e.2 = b'' := Option.some.inj hb''
      have hge : group e.2 = group b := by
        rw [hT.merge_group hmer, hg]
      rw [hge, hds, he2, ← hg]
      exact htot
  · intro c hc
    rcases List.mem_append.mp hc with hc | hc
    · obtain ⟨e₀, he₀, hg⟩ := h.covered c hc
      by_cases hgb : group e₀.2 = group b
      · obtain ⟨b'', hb'', -⟩ := hT.merge_total (h.total e₀ he₀) hb hgb
        refine ⟨(key (group b), b''), (hmem _).mpr (Or.inr ⟨rfl, Or.inr ⟨e₀, he₀, hgb, hb''⟩⟩), ?_⟩
        rw [← hg]
        exact hT.merge_group hb''
      · exact ⟨e₀, (hmem e₀).mpr (Or.inl ⟨he₀, hgb⟩), hg⟩
    · rw [hT.group_eq hb c hc]
      by_cases hfresh : ∀ e₀ ∈ m.entries, group e₀.2 ≠ group b
      · exact ⟨(key (group b), b), (hmem _).mpr (Or.inr ⟨rfl, Or.inl ⟨rfl, hfresh⟩⟩), rfl⟩
      · push Not at hfresh
        obtain ⟨e₀, he₀, hgb⟩ := hfresh
        obtain ⟨b'', hb'', -⟩ := hT.merge_total (h.total e₀ he₀) hb hgb
        refine ⟨(key (group b), b''), (hmem _).mpr (Or.inr ⟨rfl, Or.inr ⟨e₀, he₀, hgb, hb''⟩⟩), ?_⟩
        exact (hT.merge_group hb'').trans hgb

-- ---------------------------------------------------------------------------
-- Merging a whole multimap
-- ---------------------------------------------------------------------------

def Multimap.mergeAll (same : β → β → Bool) (merge : β → β → Option β) (es : List (κ × β))
    (m : Multimap κ β) : Option (Multimap κ β) :=
  es.foldlM (fun out e => out.mergeEntry same merge e.1 e.2) m

theorem flatMap_ite_eq {us : List υ} (hnd : us.Nodup) (u : υ) (l : List γ) :
    (us.flatMap fun u' => if u' = u then l else []) = if u ∈ us then l else [] := by
  induction us with
  | nil => rfl
  | cons u' us ih =>
    obtain ⟨hu', hnd'⟩ := List.nodup_cons.mp hnd
    rw [List.flatMap_cons, ih hnd']
    by_cases heq : u' = u
    · subst heq
      simp [hu']
    · simp [heq, Ne.symm heq]

/-- Listing the contributions group by group leaves each group's list alone. -/
theorem ofGroup_flatMap {us : List υ} (hnd : us.Nodup) {cs : List γ}
    (hcov : ∀ c ∈ cs, cgroup c ∈ us) (u : υ) :
    ofGroup cgroup u (us.flatMap fun u' => ofGroup cgroup u' cs) = ofGroup cgroup u cs := by
  have hone : ∀ u', ofGroup cgroup u (ofGroup cgroup u' cs) =
      if u' = u then ofGroup cgroup u cs else [] := by
    intro u'
    split
    · rename_i heq
      rw [heq]
      exact ofGroup_eq_self fun c hc => (mem_ofGroup.mp hc).2
    · rename_i hne
      exact ofGroup_eq_nil fun c hc hcu => hne ((mem_ofGroup.mp hc).2.symm.trans hcu)
  have hflat : ofGroup cgroup u (us.flatMap fun u' => ofGroup cgroup u' cs) =
      us.flatMap fun u' => ofGroup cgroup u (ofGroup cgroup u' cs) :=
    List.filter_flatMap ..
  rw [hflat, List.flatMap_congr fun u' _ => hone u', flatMap_ite_eq hnd]
  split
  · rfl
  · rename_i hu
    refine (ofGroup_eq_nil ?_).symm
    intro c hc hcu
    rw [← hcu] at hu
    exact hu (hcov c hc)

theorem perm_of_ofGroup {cs cs' : List γ} (h : ∀ u, ofGroup cgroup u cs = ofGroup cgroup u cs') :
    cs.Perm cs' := by
  classical
  have hcount : ∀ (l : List γ) (c : γ), (ofGroup cgroup (cgroup c) l).count c = l.count c := by
    intro l c
    exact List.count_filter (by simp)
  refine List.perm_iff_count.mpr fun c => ?_
  rw [← hcount cs c, h, hcount cs' c]

/-- Grouping the contributions only reorders them. -/
theorem flatMap_ofGroup_perm {us : List υ} (hnd : us.Nodup) {cs : List γ}
    (hcov : ∀ c ∈ cs, cgroup c ∈ us) :
    (us.flatMap fun u => ofGroup cgroup u cs).Perm cs :=
  perm_of_ofGroup fun u => ofGroup_flatMap hnd hcov u

omit [DecidableEq υ] in
/-- The groups of a keyed multimap are pairwise different. -/
theorem Multimap.Keyed.nodup_groups {m : Multimap κ β} (h : m.Keyed key group) :
    (m.entries.map fun e => group e.2).Nodup := by
  refine List.pairwise_map.mpr ?_
  refine h.strict.imp_of_mem ?_
  intro a b ha hb hlt heq
  rw [h.key_eq a ha, h.key_eq b hb, heq] at hlt
  exact absurd hlt (lt_irrefl _)

/-- Merge entries one by one, each a total of its own contributions. -/
theorem represents_mergeTotals (hT : IsTotal group cgroup merge Total)
    (hsame : ∀ b b', same b b' = true ↔ group b = group b') {U : υ → Prop}
    (hsep : ∀ u u', U u → U u' → key u = key u' → u = u') (part : κ × β → List γ)
    {es : List (κ × β)} (hes : ∀ e ∈ es, e.1 = key (group e.2) ∧ Total (part e) e.2 ∧ U (group e.2))
    {m : Multimap κ β} {cs : List γ} (h : Represents key group cgroup Total m cs)
    (hcs : ∀ c ∈ cs, U (cgroup c)) :
    ∃ m', m.mergeAll same merge es = some m' ∧
      Represents key group cgroup Total m' (cs ++ es.flatMap part) := by
  induction es generalizing m cs with
  | nil => exact ⟨m, rfl, by simpa using h⟩
  | cons e es ih =>
    obtain ⟨hkey, htot, hU⟩ := hes e (List.mem_cons_self ..)
    obtain ⟨m₁, hm₁, hrep₁⟩ := represents_mergeEntry hT hsame h htot
      fun c hc hk => hsep _ _ (hcs c hc) hU hk
    have hcs₁ : ∀ c ∈ cs ++ part e, U (cgroup c) := by
      intro c hc
      rcases List.mem_append.mp hc with hc | hc
      · exact hcs c hc
      · rw [hT.group_eq htot c hc]
        exact hU
    obtain ⟨m', hm', hrep'⟩ := ih (fun e' he' => hes e' (List.mem_cons_of_mem _ he')) hrep₁ hcs₁
    refine ⟨m', ?_, ?_⟩
    · unfold Multimap.mergeAll at hm' ⊢
      rw [List.foldlM_cons, hkey, hm₁]
      exact hm'
    · rw [List.flatMap_cons, ← List.append_assoc]
      exact hrep'

/-- Merging a multimap into another appends its contributions. -/
theorem represents_mergeAll (hT : IsTotal group cgroup merge Total)
    (hsame : ∀ b b', same b b' = true ↔ group b = group b') {U : υ → Prop}
    (hsep : ∀ u u', U u → U u' → key u = key u' → u = u') {m input : Multimap κ β}
    {cs ds : List γ} (h : Represents key group cgroup Total m cs)
    (hin : Represents key group cgroup Total input ds) (hcs : ∀ c ∈ cs, U (cgroup c))
    (hds : ∀ c ∈ ds, U (cgroup c)) :
    ∃ m', m.mergeAll same merge input.entries = some m' ∧
      Represents key group cgroup Total m' (cs ++ ds) := by
  have hes : ∀ e ∈ input.entries, e.1 = key (group e.2) ∧
      Total (ofGroup cgroup (group e.2) ds) e.2 ∧ U (group e.2) := by
    intro e he
    obtain ⟨c, hc, hce⟩ := hin.exists_contribution hT he
    exact ⟨hin.keyed.key_eq e he, hin.total e he, hce ▸ hds c hc⟩
  obtain ⟨m', hm', hrep⟩ := represents_mergeTotals hT hsame hsep
    (fun e => ofGroup cgroup (group e.2) ds) hes h hcs
  refine ⟨m', hm', hrep.congr fun u => ?_⟩
  have hflat : (input.entries.flatMap fun e => ofGroup cgroup (group e.2) ds) =
      (input.entries.map fun e => group e.2).flatMap fun u => ofGroup cgroup u ds := by
    rw [List.flatMap_map]
  have hcov : ∀ c ∈ ds, cgroup c ∈ input.entries.map fun e => group e.2 := by
    intro c hc
    obtain ⟨e, he, hg⟩ := hin.covered c hc
    exact List.mem_map.mpr ⟨e, he, hg⟩
  rw [ofGroup_append, ofGroup_append, hflat, ofGroup_flatMap hin.keyed.nodup_groups hcov]

-- ---------------------------------------------------------------------------
-- Truncation and uniqueness
-- ---------------------------------------------------------------------------

/-- Cutting a multimap drops the contributions of the groups cut off. -/
theorem represents_truncate {m : Multimap κ β} {cs : List γ}
    (h : Represents key group cgroup Total m cs) {n : Nat} {p : γ → Bool}
    (hp : ∀ c, p c = true ↔ key (cgroup c) ∈ (m.entries.take n).map Prod.fst) :
    Represents key group cgroup Total (m.truncate n) (cs.filter p) := by
  have hsub : ∀ e ∈ (m.truncate n).entries, e ∈ m.entries := fun e he => List.mem_of_mem_take he
  refine ⟨⟨List.Pairwise.sublist (List.take_sublist n _) h.keyed.strict,
    fun e he => h.keyed.key_eq e (hsub e he)⟩, ?_, ?_⟩
  · intro e he
    have hkeep : ofGroup cgroup (group e.2) (cs.filter p) = ofGroup cgroup (group e.2) cs := by
      unfold ofGroup
      rw [List.filter_filter]
      refine List.filter_congr ?_
      intro c _
      by_cases hc : cgroup c = group e.2
      · have hin : p c = true := by
          rw [hp, hc, ← h.keyed.key_eq e (hsub e he)]
          exact List.mem_map_of_mem he
        simp only [hc, hin, decide_true, Bool.and_self]
      · simp [hc]
    rw [hkeep]
    exact h.total e (hsub e he)
  · intro c hc
    obtain ⟨hc, hin⟩ := List.mem_filter.mp hc
    obtain ⟨e, he, hk⟩ := List.mem_map.mp ((hp c).mp hin)
    obtain ⟨e', he', hg⟩ := h.covered c hc
    have hkey : e.1 = e'.1 := by rw [hk, h.keyed.key_eq e' he', hg]
    have hee : e = e' := h.keyed.strict.eq_of_mem (hsub e he) he' hkey
    exact ⟨e, he, hee ▸ hg⟩

/-- There are at most as many entries as contributions. -/
theorem Represents.size_le (hT : IsTotal group cgroup merge Total) {m : Multimap κ β}
    {cs : List γ} (h : Represents key group cgroup Total m cs) : m.size ≤ cs.length := by
  have hsub : ∀ u ∈ m.entries.map fun e => group e.2, u ∈ cs.map cgroup := by
    intro u hu
    obtain ⟨e, he, rfl⟩ := List.mem_map.mp hu
    obtain ⟨c, hc, hce⟩ := h.exists_contribution hT he
    exact List.mem_map.mpr ⟨c, hc, hce⟩
  have hlen := (List.subperm_of_subset h.keyed.nodup_groups hsub).length_le
  rwa [List.length_map, List.length_map] at hlen

/-- Entries of the same contributions up to order agree in everything a total
determines. -/
theorem Represents.mem_view {α : Type} {view : β → α} (hT : IsTotal group cgroup merge Total)
    (hview : ∀ {cs cs' b b'}, Total cs b → Total cs' b' → cs.Perm cs' → view b = view b')
    {m m' : Multimap κ β} {cs cs' : List γ} (h : Represents key group cgroup Total m cs)
    (h' : Represents key group cgroup Total m' cs') {e : κ × β} (he : e ∈ m.entries)
    (hp : (ofGroup cgroup (group e.2) cs).Perm (ofGroup cgroup (group e.2) cs')) :
    (e.1, view e.2) ∈ m'.entries.map fun e => (e.1, view e.2) := by
  have htot := h.total e he
  obtain ⟨c, hc⟩ := List.exists_mem_of_ne_nil _ (hT.ne_nil htot)
  obtain ⟨hc', hce⟩ := mem_ofGroup.mp (hp.mem_iff.mp hc)
  obtain ⟨e', he', hg⟩ := h'.covered c hc'
  have hge : group e'.2 = group e.2 := hg.trans hce
  have htot' := h'.total e' he'
  rw [hge] at htot'
  refine List.mem_map.mpr ⟨e', he', ?_⟩
  rw [h'.keyed.key_eq e' he', h.keyed.key_eq e he, hge, hview htot htot' hp]

theorem represents_unique {α : Type} {view : β → α} (hT : IsTotal group cgroup merge Total)
    (hview : ∀ {cs cs' b b'}, Total cs b → Total cs' b' → cs.Perm cs' → view b = view b')
    {m m' : Multimap κ β} {cs cs' : List γ} (h : Represents key group cgroup Total m cs)
    (h' : Represents key group cgroup Total m' cs') (hp : cs.Perm cs') :
    (m.entries.map fun e => (e.1, view e.2)) = m'.entries.map fun e => (e.1, view e.2) := by
  have hstrict : ∀ {m : Multimap κ β} {cs : List γ}, Represents key group cgroup Total m cs →
      KeysLt (m.entries.map fun e => (e.1, view e.2)) :=
    fun h => List.pairwise_map.mpr h.keyed.strict
  refine eq_of_keysLt (hstrict h) (hstrict h') fun x => ⟨fun hx => ?_, fun hx => ?_⟩
  · obtain ⟨e, he, rfl⟩ := List.mem_map.mp hx
    exact h.mem_view hT hview h' he (ofGroup_perm hp)
  · obtain ⟨e, he, rfl⟩ := List.mem_map.mp hx
    exact h'.mem_view hT hview h he (ofGroup_perm hp.symm)

-- ---------------------------------------------------------------------------
-- Entries of new groups
-- ---------------------------------------------------------------------------

omit [DecidableEq υ] in
/-- Entries of pairwise different groups are only ever inserted, whatever
their keys. -/
theorem mergeAll_perm_of_nodup (merge : β → β → Option β)
    (hsame : ∀ b b', same b b' = true ↔ group b = group b') {es : List (κ × β)} {m : Multimap κ β}
    (hnd : ((m.entries ++ es).map fun e => group e.2).Nodup) :
    ∃ m', m.mergeAll same merge es = some m' ∧ m'.entries.Perm (m.entries ++ es) := by
  induction es generalizing m with
  | nil => exact ⟨m, rfl, by simp⟩
  | cons e es ih =>
    have hins : m.mergeEntry same merge e.1 e.2 = some (m.insert e.1 e.2) := by
      unfold Multimap.mergeEntry
      cases hfind : m.find? e.1 with
      | none => rfl
      | some b₀ =>
        have hk : (e.1, b₀) ∈ m.entries := mem_of_findList hfind
        have hne : ¬ same b₀ e.2 = true := by
          intro hs
          have hg := (hsame b₀ e.2).mp hs
          rw [List.map_append, List.nodup_append] at hnd
          exact hnd.2.2 _ (List.mem_map_of_mem hk) _ (List.mem_map_of_mem (List.mem_cons_self ..)) hg
        show (if same b₀ e.2 then _ else _) = _
        rw [if_neg hne]
    have hperm : (m.insert e.1 e.2).entries.Perm (e :: m.entries) := insertUpper_perm _ _ _
    have hperm' : ((m.insert e.1 e.2).entries ++ es).Perm (m.entries ++ e :: es) :=
      (hperm.append_right es).trans List.perm_middle.symm
    obtain ⟨m', hm', hp'⟩ := ih ((hperm'.map fun e => group e.2).nodup_iff.mpr hnd)
    refine ⟨m', ?_, hp'.trans hperm'⟩
    unfold Multimap.mergeAll at hm' ⊢
    rw [List.foldlM_cons, hins]
    exact hm'

-- ---------------------------------------------------------------------------
-- Groups that share a key
-- ---------------------------------------------------------------------------

omit [DecidableEq υ] in
theorem insertUpper_const (k : κ) (b : β) (bs : List β) :
    insertUpper k b (bs.map fun x => (k, x)) = (bs ++ [b]).map fun x => (k, x) := by
  induction bs with
  | nil => rfl
  | cons x bs ih => simp [insertUpper, ih]

omit [DecidableEq υ] in
/-- Behind an entry of another group with the same key, entries pile up: the
lookup always meets the first one. -/
theorem mergeAll_collide (merge : β → β → Option β) (k : κ) {b₀ : β} {bs : List β}
    (hbs : ∀ b ∈ bs, same b₀ b = false) {cs : List β} {m : Multimap κ β}
    (hm : m.entries = (b₀ :: cs).map fun x => (k, x)) :
    ∃ m', m.mergeAll same merge (bs.map fun x => (k, x)) = some m' ∧
      m'.entries = (b₀ :: cs ++ bs).map fun x => (k, x) := by
  induction bs generalizing m cs with
  | nil => exact ⟨m, rfl, by rw [List.append_nil]; exact hm⟩
  | cons b bs ih =>
    have hfind : m.find? k = some b₀ := by
      unfold Multimap.find?
      rw [hm]
      simp [findList]
    have hstep : m.mergeEntry same merge k b = some (m.insert k b) := by
      unfold Multimap.mergeEntry
      rw [hfind]
      show (if same b₀ b then _ else _) = _
      rw [if_neg (by simp [hbs b (List.mem_cons_self ..)])]
    have hins : (m.insert k b).entries = (b₀ :: (cs ++ [b])).map fun x => (k, x) := by
      show insertUpper k b m.entries = _
      rw [hm, insertUpper_const]
      rfl
    obtain ⟨m', hm', he'⟩ := ih (fun b' hb' => hbs b' (List.mem_cons_of_mem _ hb')) hins
    refine ⟨m', ?_, ?_⟩
    · unfold Multimap.mergeAll at hm' ⊢
      rw [List.map_cons, List.foldlM_cons, hstep]
      exact hm'
    · rw [he']
      simp

omit [DecidableEq υ] in
theorem mergeAll_collide_empty (merge : β → β → Option β) (k : κ) {b₀ : β} {bs : List β}
    (hbs : ∀ b ∈ bs, same b₀ b = false) :
    ∃ m', Multimap.mergeAll same merge ((b₀ :: bs).map fun x => (k, x)) .empty = some m' ∧
      m'.entries = (b₀ :: bs).map fun x => (k, x) := by
  have hm : (Multimap.empty.insert k b₀).entries = [b₀].map fun x => (k, x) := rfl
  exact mergeAll_collide merge k hbs hm

namespace Multimap

variable (group)

/-- The groups of the entries. -/
def groups (m : Multimap κ β) : List υ := m.entries.map fun e => group e.2

/-- The group of the entry that a lookup of the key meets. -/
def groupAt (m : Multimap κ β) (k : κ) : Option υ := (m.find? k).map group

variable {group}

omit [DecidableEq υ] in
theorem groups_replace {m : Multimap κ β} {k : κ} {b₀ b₁ : β} (hfind : m.find? k = some b₀)
    (hgroup : group b₁ = group b₀) : (m.replace k b₁).groups group = m.groups group := by
  show (replaceFirst k b₁ m.entries).map _ = m.entries.map _
  have h : findList k m.entries = some b₀ := hfind
  generalize m.entries = l at h
  induction l with
  | nil => rfl
  | cons hd rest ih =>
    obtain ⟨kh, vh⟩ := hd
    rw [findList] at h
    rw [replaceFirst]
    by_cases hk : k = kh
    · rw [if_pos hk] at h ⊢
      rw [List.map_cons, List.map_cons, hgroup, Option.some.inj h]
    · rw [if_neg hk] at h ⊢
      rw [List.map_cons, List.map_cons, ih h]

omit [DecidableEq υ] in
theorem groupAt_insert (m : Multimap κ β) (k k' : κ) (b : β) :
    (m.insert k b).groupAt group k' =
      (m.groupAt group k').or (if k' = k then some (group b) else none) := by
  show (findList k' (insertUpper k b m.entries)).map group = _
  rw [findList_insertUpper m.sorted, Option.map_or]
  split <;> rfl

omit [DecidableEq υ] in
/-- An update leaves the groups as they are when the lookup meets the group, and
adds it when the lookup meets another or none. -/
theorem groups_mergeEntry (hsame : ∀ b b', same b b' = true ↔ group b = group b')
    (hgroup : ∀ {b b' b''}, merge b b' = some b'' → group b'' = group b) {m m' : Multimap κ β}
    {k : κ} {b : β} (h : m.mergeEntry same merge k b = some m') :
    (∀ k', m'.groupAt group k' =
      (m.groupAt group k').or (if k' = k then some (group b) else none)) ∧
    (m.groupAt group k = some (group b) ∧ m'.groups group = m.groups group ∨
      m.groupAt group k ≠ some (group b) ∧ (m'.groups group).Perm (group b :: m.groups group)) := by
  unfold mergeEntry at h
  cases hfind : m.find? k with
  | none =>
    rw [hfind] at h
    obtain rfl := Option.some.inj h
    refine ⟨fun k' => groupAt_insert m k k' b, Or.inr ⟨?_, (insertUpper_perm k b m.entries).map _⟩⟩
    rw [groupAt, hfind]
    exact Option.some_ne_none _ ∘ Eq.symm
  | some b₀ =>
    rw [hfind] at h
    by_cases hs : same b₀ b = true
    · have hg : group b₀ = group b := (hsame b₀ b).mp hs
      have hat : m.groupAt group k = some (group b) := by rw [groupAt, hfind, ← hg]; rfl
      obtain ⟨b₁, hb₁, rfl⟩ := Option.map_eq_some_iff.mp ((if_pos hs).symm.trans h)
      refine ⟨fun k' => ?_, Or.inl ⟨hat, groups_replace hfind (hgroup hb₁)⟩⟩
      show (findList k' (replaceFirst k b₁ m.entries)).map group = _
      rw [findList_replaceFirst hfind]
      by_cases hk : k' = k
      · rw [if_pos hk, hk, hat, Option.map_some, hgroup hb₁, hg]
        rfl
      · rw [if_neg hk, if_neg hk, Option.or_none]
        rfl
    · have hins : m' = m.insert k b := (Option.some.inj ((if_neg hs).symm.trans h)).symm
      subst hins
      refine ⟨fun k' => groupAt_insert m k k' b,
        Or.inr ⟨?_, (insertUpper_perm k b m.entries).map _⟩⟩
      rw [groupAt, hfind]
      exact fun heq => hs ((hsame b₀ b).mpr (Option.some.inj heq))

end Multimap

variable (group) in
/-- Whenever a group comes again, the first entry of its key was of that group. -/
def Steady (es : List (κ × β)) : Prop :=
  ∀ l₁ e l₂, es = l₁ ++ e :: l₂ → (∃ d ∈ l₁, group d.2 = group e.2) →
    (findList e.1 l₁).map group = some (group e.2)

omit [DecidableEq υ] in
/-- Keys that tell groups apart. -/
theorem steady_of_separated {es : List (κ × β)}
    (h : ∀ d ∈ es, ∀ e ∈ es, d.1 = e.1 ↔ group d.2 = group e.2) : Steady group es := by
  rintro l₁ e l₂ rfl ⟨d, hd, hg⟩
  have hmem : ∀ x ∈ l₁, x ∈ l₁ ++ e :: l₂ := fun x hx => List.mem_append_left _ hx
  have hkey : d.1 = e.1 := (h d (hmem d hd) e (by simp)).mpr hg
  obtain ⟨b, hb⟩ := Option.isSome_iff_exists.mp
    (findList_isSome_iff.mpr ⟨d.2, show (e.1, d.2) ∈ l₁ by rw [← hkey]; exact hd⟩)
  have hfirst := (h (e.1, b) (hmem _ (mem_of_findList hb)) e (by simp)).mp rfl
  rw [hb, Option.map_some, hfirst]

omit [DecidableEq υ] in
theorem steady_snoc {es : List (κ × β)} {e : κ × β} :
    Steady group (es ++ [e]) ↔ Steady group es ∧
      ((∃ d ∈ es, group d.2 = group e.2) → (findList e.1 es).map group = some (group e.2)) := by
  constructor
  · intro h
    refine ⟨fun l₁ d l₂ heq => h l₁ d (l₂ ++ [e]) (by rw [heq]; simp), h es e [] rfl⟩
  · rintro ⟨hes, he⟩ l₁ d l₂ heq
    rcases List.eq_nil_or_concat l₂ with rfl | ⟨l, x, rfl⟩
    · obtain ⟨rfl, hd⟩ := List.append_inj' heq rfl
      obtain rfl := List.singleton_inj.mp hd
      exact he
    · rw [List.concat_eq_append, ← List.cons_append, ← List.append_assoc] at heq
      obtain ⟨hinit, -⟩ := List.append_inj' heq rfl
      exact hes l₁ d l hinit

omit [DecidableEq υ] in
/-- What entries merged into an empty multimap leave in it, whether or not
their keys tell their groups apart. -/
theorem groups_mergeAll (hsame : ∀ b b', same b b' = true ↔ group b = group b')
    (hgroup : ∀ {b b' b''}, merge b b' = some b'' → group b'' = group b) {es : List (κ × β)}
    {m : Multimap κ β} (h : Multimap.mergeAll same merge es .empty = some m) :
    (∀ k, m.groupAt group k = (findList k es).map group) ∧
    (∀ u, u ∈ m.groups group ↔ ∃ e ∈ es, group e.2 = u) ∧
    ((m.groups group).Nodup ↔ Steady group es) := by
  induction es using List.reverseRecOn generalizing m with
  | nil =>
    obtain rfl := Option.some.inj h
    refine ⟨fun k => rfl, fun u => ?_, ?_⟩
    · simp [Multimap.groups, Multimap.empty]
    · refine ⟨fun _ l₁ e l₂ heq => ?_, fun _ => List.nodup_nil⟩
      cases l₁ <;> cases heq
  | append_singleton es e ih =>
    unfold Multimap.mergeAll at h
    rw [List.foldlM_append] at h
    obtain ⟨m₀, hm₀, hlast⟩ := Option.bind_eq_some_iff.mp h
    obtain ⟨hat, hmem, hnodup⟩ := ih hm₀
    have hlast : m₀.mergeEntry same merge e.1 e.2 = some m := by
      simpa using hlast
    obtain ⟨hat', hcases⟩ := Multimap.groups_mergeEntry hsame hgroup hlast
    refine ⟨fun k => ?_, fun u => ?_, ?_⟩
    · rw [hat' k, hat k, findList_append, Option.map_or]
      congr 1
      rw [findList, findList]
      split <;> rfl
    · have hsplit : (∃ d ∈ es ++ [e], group d.2 = u) ↔ (∃ d ∈ es, group d.2 = u) ∨ group e.2 = u := by
        simp only [List.mem_append, List.mem_singleton, or_and_right, exists_or, exists_eq_left]
      rcases hcases with ⟨hfound, heq⟩ | ⟨-, hperm⟩
      · -- the lookup met an entry of the group
        have hold : group e.2 ∈ m₀.groups group := by
          obtain ⟨b₀, hb₀, hg⟩ := Option.map_eq_some_iff.mp hfound
          rw [← hg]
          exact List.mem_map.mpr ⟨(e.1, b₀), mem_of_findList hb₀, rfl⟩
        rw [heq, hmem u, hsplit]
        refine ⟨Or.inl, fun h => h.elim id fun hu => ?_⟩
        rw [← hu]
        exact (hmem _).mp hold
      · rw [hperm.mem_iff, List.mem_cons, hmem u, hsplit, eq_comm, or_comm]
    · rw [steady_snoc, ← hnodup, ← hat e.1, ← hmem (group e.2)]
      rcases hcases with ⟨hfound, heq⟩ | ⟨hmissed, hperm⟩
      · rw [heq]
        exact ⟨fun h => ⟨h, fun _ => hfound⟩, fun h => h.1⟩
      · rw [hperm.nodup_iff, List.nodup_cons]
        constructor
        · rintro ⟨hnew, hnd⟩
          exact ⟨hnd, fun hold => absurd hold hnew⟩
        · rintro ⟨hnd, hsteady⟩
          exact ⟨fun hold => hmissed (hsteady hold), hnd⟩

end

end TfAnalytics.Lib
