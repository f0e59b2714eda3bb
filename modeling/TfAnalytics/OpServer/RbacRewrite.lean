import Mathlib.Data.List.Count
import Mathlib.Data.List.Basic
import TfAnalytics.OpServer.Rbac

/-!
# Analytics API — what the RBAC rewrite keeps of a WHERE

Over the rows whose name is permitted, `update_where_clause` should change nothing. It takes
out of every clause the conditions on the name that let a permitted object in, and then pairs
the first condition that is left with each new condition.

* `rewriteAll_clauses`: what is left of the clauses;
* `admits_final_iff`: the rows that the paired clauses admit;
* `sameRows_of_keptClauses`: clauses of which nothing is dropped that matters;
* `sameRows_iff`: when these are the rows that the WHERE has admitted.
-/

namespace TfAnalytics.OpServer

-- ---------------------------------------------------------------------------
-- Taking conditions out
-- ---------------------------------------------------------------------------

section

variable {α : Type}

/-- The elements of one of several lists, by its number. -/
theorem filter_zipIdx_flatMap (keep : α → Bool) (w : List (List α)) (n i : Nat) :
    (((w.zipIdx n).flatMap fun p => (p.1.filter keep).map fun c => (p.2, c)).filter
      fun q => q.1 = n + i).map Prod.snd = ((w[i]?).getD []).filter keep := by
  induction w generalizing n i with
  | nil => simp
  | cons l rest ih =>
    rw [List.zipIdx_cons, List.flatMap_cons, List.filter_append, List.map_append]
    have hlater : ∀ q ∈ ((rest.zipIdx (n + 1)).flatMap fun p =>
        (p.1.filter keep).map fun c => (p.2, c)), n + 1 ≤ q.1 := by
      intro q hq
      obtain ⟨p, hp, hq⟩ := List.mem_flatMap.mp hq
      obtain ⟨c, -, rfl⟩ := List.mem_map.mp hq
      exact List.le_snd_of_mem_zipIdx hp
    cases i with
    | zero =>
      have hnone : ((rest.zipIdx (n + 1)).flatMap fun p =>
          (p.1.filter keep).map fun c => (p.2, c)).filter (fun q => decide (q.1 = n + 0)) = [] := by
        refine List.filter_eq_nil_iff.mpr fun q hq => ?_
        have hle := hlater q hq
        rw [decide_eq_true_eq]
        omega
      rw [hnone, List.map_nil, List.append_nil, List.filter_map, List.map_map]
      simp [Function.comp_def]
    | succ i =>
      have hfirst : ((l.filter keep).map fun c => (n, c)).filter
          (fun q => decide (q.1 = n + (i + 1))) = [] := by
        refine List.filter_eq_nil_iff.mpr fun q hq => ?_
        obtain ⟨c, -, rfl⟩ := List.mem_map.mp hq
        rw [decide_eq_true_eq]
        show ¬ n = n + (i + 1)
        omega
      have hindex : n + (i + 1) = n + 1 + i := by omega
      rw [hfirst, List.map_nil, List.nil_append, hindex, ih (n + 1) i, List.getElem?_cons_succ]

variable [DecidableEq α]

/-- Taking each of these out as often as it is there leaves the others, in their order. -/
theorem diff_eq_filter {l cs : List α} (h : ∀ c ∈ cs, l.count c ≤ cs.count c) :
    l.diff cs = l.filter (· ∉ cs) := by
  have hmem : ∀ c ∈ l.diff cs, c ∉ cs := by
    intro c hc hcs
    have hpos := List.count_pos_iff.mpr hc
    rw [List.count_diff] at hpos
    have hle := h c hcs
    omega
  have hsub : (l.diff cs).Sublist (l.filter (· ∉ cs)) := by
    have hfilter := (List.diff_sublist l cs).filter (· ∉ cs)
    rwa [List.filter_eq_self.mpr fun c hc => decide_eq_true (hmem c hc)] at hfilter
  have hperm : (l.diff cs).Perm (l.filter (· ∉ cs)) := by
    refine List.perm_iff_count.mpr fun c => ?_
    by_cases hc : c ∈ cs
    · have hle := h c hc
      have hnot : c ∉ l.filter (· ∉ cs) := fun hfilter => by
        simpa [hc] using (List.mem_filter.mp hfilter).2
      rw [List.count_diff, List.count_eq_zero.mpr hnot]
      omega
    · rw [List.count_diff, List.count_eq_zero.mpr hc, List.count_filter (by simpa using hc)]
      omega
  exact hsub.eq_of_length hperm.length_eq

/-- What is taken out of one of several lists, one element after the other. -/
theorem getElem?_foldl_modify (ops : List (Nat × α)) (w : List (List α)) (i : Nat) :
    (ops.foldl (fun w p => w.modify p.1 fun l => l.erase p.2) w)[i]? =
      (w[i]?).map fun l => l.diff ((ops.filter fun p => p.1 = i).map Prod.snd) := by
  induction ops generalizing w with
  | nil => simp
  | cons p rest ih =>
    rw [List.foldl_cons, ih, List.getElem?_modify]
    by_cases hp : p.1 = i
    · rw [List.filter_cons_of_pos (by simpa using hp), List.map_cons]
      simp only [if_pos hp, Option.map_eq_map, Option.map_map]
      refine congrArg (Option.map · w[i]?) (funext fun l => ?_)
      exact (List.diff_cons l _ p.2).symm
    · rw [List.filter_cons_of_neg (by simpa using hp)]
      simp only [if_neg hp, Option.map_eq_map, Option.map_id']

end

-- ---------------------------------------------------------------------------
-- The clauses
-- ---------------------------------------------------------------------------

variable {name : String} {permitted : List String} {w : Where}

/-- The condition is one on the name that lets a permitted object in. -/
def Condition.replaced (name : String) (permitted : List String) (c : Condition) : Bool :=
  c.name == name && permitted.any c.accepts

/-- What is left of a clause. -/
def remaining (name : String) (permitted : List String) (clause : Clause) : Clause :=
  clause.filter fun c => !c.replaced name permitted

/-- One object: the conditions that let it in are taken out. -/
theorem add_clauses (name : String) (conditions : List (Nat × Condition)) (r : Rewrite)
    (obj_value : String) :
    (r.add name conditions obj_value).where_clause_list =
      (conditions.filter fun p => p.2.accepts obj_value).foldl
        (fun w p => w.modify p.1 fun clause => clause.erase p.2) r.where_clause_list := by
  unfold Rewrite.add
  split
  · rename_i hlen
    rw [List.eq_nil_of_length_eq_zero hlen]
    rfl
  · clear * -
    induction conditions generalizing r with
    | nil => rfl
    | cons p rest ih =>
      rw [List.foldl_cons, ih]
      by_cases hp : p.2.accepts obj_value = true
      · rw [if_pos hp, List.filter_cons, if_pos hp]
        rfl
      · rw [if_neg hp, List.filter_cons, if_neg hp]

theorem rewriteAll_clauses_eq_foldl (name : String) (conditions : List (Nat × Condition))
    (permitted : List String) (w : Where) :
    (rewriteAll name conditions permitted w).where_clause_list =
      (permitted.flatMap fun obj => conditions.filter fun p => p.2.accepts obj).foldl
        (fun w p => w.modify p.1 fun clause => clause.erase p.2) w := by
  have hloop : ∀ (l : List String) (r : Rewrite),
      (l.foldl (Rewrite.add name conditions) r).where_clause_list =
        (l.flatMap fun obj => conditions.filter fun p => p.2.accepts obj).foldl
          (fun w p => w.modify p.1 fun clause => clause.erase p.2) r.where_clause_list := by
    intro l
    induction l with
    | nil => exact fun _ => rfl
    | cons obj rest ih =>
      intro r
      rw [List.foldl_cons, ih, add_clauses, List.flatMap_cons, List.foldl_append]
  exact hloop permitted ⟨[], w⟩

/-- The conditions on the name in one clause. -/
theorem nameConditions_clause (name : String) (w : Where) (i : Nat) :
    ((nameConditions name w).filter fun p => p.1 = i).map Prod.snd =
      ((w[i]?).getD []).filter fun c => c.name == name := by
  have hclause := filter_zipIdx_flatMap (fun c : Condition => c.name == name) w 0 i
  rwa [Nat.zero_add] at hclause

theorem mem_nameConditions {i : Nat} {c : Condition} :
    (i, c) ∈ nameConditions name w ↔ ∃ clause, w[i]? = some clause ∧ c ∈ clause ∧ c.name = name := by
  have hmem : (i, c) ∈ nameConditions name w ↔
      c ∈ ((nameConditions name w).filter fun p => p.1 = i).map Prod.snd := by
    rw [List.mem_map]
    constructor
    · intro h
      exact ⟨(i, c), List.mem_filter.mpr ⟨h, decide_eq_true rfl⟩, rfl⟩
    · intro ⟨p, hp, hc⟩
      obtain ⟨hp, hi⟩ := List.mem_filter.mp hp
      obtain rfl : p = (i, c) := Prod.ext (of_decide_eq_true hi) hc
      exact hp
  rw [hmem, nameConditions_clause, List.mem_filter, beq_iff_eq]
  cases w[i]? with
  | none => simp
  | some clause => simp

/-- A clause keeps the conditions that were not replaced. -/
theorem rewriteAll_clauses (name : String) (permitted : List String) (w : Where) :
    (rewriteAll name (nameConditions name w) permitted w).where_clause_list =
      w.map (remaining name permitted) := by
  refine List.ext_getElem? fun i => ?_
  rw [rewriteAll_clauses_eq_foldl, getElem?_foldl_modify, List.getElem?_map]
  cases hclause : w[i]? with
  | none => rfl
  | some clause =>
    refine congrArg some ?_
    have hcounted : ((nameConditions name w).filter fun p => p.1 = i).map Prod.snd =
        clause.filter fun c => c.name == name := by
      rw [nameConditions_clause, hclause]
      rfl
    rw [List.filter_flatMap, List.map_flatMap]
    have hobj : ∀ obj, (((nameConditions name w).filter fun p => p.2.accepts obj).filter
        fun p => p.1 = i).map Prod.snd = (clause.filter fun c => c.name == name).filter (·.accepts obj) := by
      intro obj
      rw [← hcounted, List.filter_map, List.filter_comm]
      rfl
    simp only [hobj]
    have hmem : ∀ c, c ∈ (permitted.flatMap fun obj =>
        (clause.filter fun c => c.name == name).filter (·.accepts obj)) ↔
        c ∈ clause ∧ c.replaced name permitted = true := by
      intro c
      rw [List.mem_flatMap, Condition.replaced, Bool.and_eq_true, List.any_eq_true]
      simp only [List.mem_filter]
      tauto
    rw [diff_eq_filter]
    · refine List.filter_congr fun c hc => ?_
      rw [decide_not, Bool.not_inj_iff, Bool.eq_iff_iff, decide_eq_true_eq, hmem]
      exact ⟨fun h => h.2, fun h => ⟨hc, h⟩⟩
    · intro c hc
      obtain ⟨obj, hobj, hc⟩ := List.mem_flatMap.mp hc
      obtain ⟨hname, hacc⟩ := List.mem_filter.mp hc
      have hsub : ((clause.filter fun c => c.name == name).filter (·.accepts obj)).Sublist
          (permitted.flatMap fun obj => (clause.filter fun c => c.name == name).filter (·.accepts obj)) :=
        List.sublist_flatten_of_mem (List.mem_map.mpr ⟨obj, hobj, rfl⟩)
      have hle := hsub.count_le c
      rwa [List.count_filter (p := fun c : Condition => c.accepts obj) hacc,
        List.count_filter (p := fun c : Condition => c.name == name) (List.mem_filter.mp hname).2] at hle

-- ---------------------------------------------------------------------------
-- The paired clauses
-- ---------------------------------------------------------------------------

/-- A clause with a new condition: only its first condition stays. -/
def paired (existing_clause : Clause) (new_clause : Condition) : Clause :=
  match existing_clause with
  | [] => [new_clause]
  | first :: _ => [first, new_clause]

theorem mem_addClause_iff {existing_clause : Clause} {final : Where} {new_clause : Condition}
    {clause : Clause} :
    clause ∈ addClause existing_clause final new_clause ↔
      clause ∈ final ∨ clause = paired existing_clause new_clause := by
  unfold addClause paired
  cases existing_clause with
  | nil =>
    show clause ∈ final ++ [[new_clause]] ↔ _
    rw [List.mem_append, List.mem_singleton]
  | cons first rest =>
    show clause ∈ (if [first, new_clause] ∈ final then final else final ++ [[first, new_clause]]) ↔ _
    split
    · rename_i hmem
      exact ⟨.inl, fun h => h.elim id fun heq => heq ▸ hmem⟩
    · rw [List.mem_append, List.mem_singleton]

/-- Each clause is paired with each new condition. -/
theorem mem_final_clause_list_iff {r : Rewrite} {clause : Clause} :
    clause ∈ final_clause_list r ↔
      ∃ existing ∈ r.where_clause_list, ∃ c ∈ r.new_clause_list, clause = paired existing c := by
  have hinner : ∀ (existing : Clause) (l : List Condition) (final : Where),
      clause ∈ l.foldl (addClause existing) final ↔
        clause ∈ final ∨ ∃ c ∈ l, clause = paired existing c := by
    intro existing l
    induction l with
    | nil => simp
    | cons c rest ih =>
      intro final
      rw [List.foldl_cons, ih, mem_addClause_iff, List.exists_mem_cons_iff, or_assoc]
  have houter : ∀ (w : Where) (final : Where),
      clause ∈ w.foldl (fun final existing => r.new_clause_list.foldl (addClause existing) final) final ↔
        clause ∈ final ∨ ∃ existing ∈ w, ∃ c ∈ r.new_clause_list, clause = paired existing c := by
    intro w
    induction w with
    | nil => simp
    | cons existing rest ih =>
      intro final
      rw [List.foldl_cons, ih, hinner, List.exists_mem_cons_iff, or_assoc]
  rw [final_clause_list, houter]
  simp

/-- An object passes the conditions on the name: there are none, or one accepts it. -/
def Accepts (name : String) (w : Where) (obj : String) : Prop :=
  nameConditions name w = [] ∨ ∃ p ∈ nameConditions name w, p.2.accepts obj = true

/-- A row meets the first condition that is left of a clause, if there is one. -/
def Semantics.MeetsFirst (sem : Semantics) (name : String) (permitted : List String)
    (clause : Clause) (row : Row) : Prop :=
  ∀ first, (remaining name permitted clause).head? = some first → sem.sat first row

variable {sem : Semantics}

theorem sat_paired_iff {existing : Clause} {obj : String} {row : Row} :
    (∀ c ∈ paired existing (newCondition name obj), sem.sat c row) ↔
      (∀ first, existing.head? = some first → sem.sat first row) ∧ row name = obj := by
  cases existing with
  | nil => simp [paired, sem.equal]
  | cons first rest => simp [paired, sem.equal]

/-- The rows with a permitted name that the paired clauses admit. -/
theorem admits_final_iff {row : Row} (hrow : row name ∈ permitted) :
    sem.Admits (some (final_clause_list
        (rewriteAll name (nameConditions name w) permitted w))) row ↔
      Accepts name w (row name) ∧ ∃ clause ∈ w, sem.MeetsFirst name permitted clause row := by
  show (∃ clause ∈ final_clause_list _, ∀ c ∈ clause, sem.sat c row) ↔ _
  constructor
  · intro ⟨clause, hclause, hsat⟩
    obtain ⟨existing, hexisting, c, hc, rfl⟩ := mem_final_clause_list_iff.mp hclause
    obtain ⟨obj, _, rfl, hacc⟩ := mem_rewriteAll.mp hc
    rw [rewriteAll_clauses] at hexisting
    obtain ⟨original, horiginal, rfl⟩ := List.mem_map.mp hexisting
    obtain ⟨hfirst, rfl⟩ := sat_paired_iff.mp hsat
    exact ⟨hacc, original, horiginal, hfirst⟩
  · intro ⟨hacc, clause, hclause, hfirst⟩
    refine ⟨paired (remaining name permitted clause) (newCondition name (row name)), ?_,
      sat_paired_iff.mpr ⟨hfirst, rfl⟩⟩
    refine mem_final_clause_list_iff.mpr ⟨_, ?_, _, mem_rewriteAll.mpr ⟨row name, hrow, rfl, hacc⟩, rfl⟩
    rw [rewriteAll_clauses]
    exact List.mem_map.mpr ⟨clause, hclause, rfl⟩

/-- Where there was no clause, one for each permitted object. -/
theorem admits_new_iff {row : Row} (hrow : row name ∈ permitted) :
    sem.Admits (some ((rewriteAll name (nameConditions name []) permitted []).new_clause_list.map
      fun c => [c])) row := by
  refine ⟨[newCondition name (row name)], List.mem_map.mpr ⟨newCondition name (row name), ?_, rfl⟩, ?_⟩
  · exact mem_rewriteAll.mpr ⟨row name, hrow, rfl, .inl rfl⟩
  · intro c hc
    rw [List.mem_singleton.mp hc]
    exact (sem.equal name (row name) row).mpr rfl

-- ---------------------------------------------------------------------------
-- The same rows
-- ---------------------------------------------------------------------------

/-- Conditions with a text: `EQUAL` and `PREFIX` (a suffix or a second value may ask for more). -/
structure MatchSemantics extends Semantics where
  sat_equal : ∀ (c : Condition) (row : Row) (s : String), c.op = MatchOp.EQUAL → c.value = .str s →
    sat c row → row c.name = s
  sat_prefix : ∀ (c : Condition) (row : Row) (s : String), c.op = MatchOp.PREFIX → c.value = .str s →
    sat c row → startswith (row c.name) s = true

/-- The names that `update_where_clause` permits. -/
def permittedNames (pfx : Option String) (obj_list : List String) : List String :=
  match pfx with
  | some pfx => if pfx = "" then obj_list else obj_list.map fun obj => pfx ++ obj
  | none => obj_list

/-- Rejected with 403, or the rows of permitted names are admitted as before. -/
def Semantics.SameRows (sem : Semantics) (name : String) (permitted : List String)
    (original : Option Where) : Except Exn (Option Where) → Prop
  | .error (.response r) => r.status = 403
  | .error _ => False
  | .ok rewritten => ∀ row, row name ∈ permitted → (sem.Admits rewritten row ↔ sem.Admits original row)

/-- The clause has an `EQUAL` or a `PREFIX` condition on the name. -/
def OnName (name : String) (clause : Clause) : Prop :=
  ∃ c ∈ clause, c.name = name ∧ (c.op = MatchOp.EQUAL ∨ c.op = MatchOp.PREFIX)

/-- What the rewrite drops is not missed: a clause without a condition on the name admits only
objects that some condition accepts, and the first condition that is left of a clause admits no row
of an accepted object that the WHERE does not. -/
structure Harmless (sem : Semantics) (name : String) (permitted : List String) (w : Where) : Prop where
  covered : ∀ clause ∈ w, ¬ OnName name clause → ∀ row, row name ∈ permitted →
    (∀ c ∈ clause, sem.sat c row) → Accepts name w (row name)
  implied : ∀ clause ∈ w, ∀ row, row name ∈ permitted → Accepts name w (row name) →
    sem.MeetsFirst name permitted clause row → sem.Admits (some w) row

/-- A `PREFIX` condition with nothing but its text. -/
def prefixCondition (name text : String) : Condition :=
  { name := name, value := .str text, op := MatchOp.PREFIX }

/-- The clauses alone: each has a condition on the name, or none has; and for each clause and each
object that passes there is a clause of no other conditions than such on the name as the object
meets, and the first one that is left. -/
structure KeptClauses (name : String) (permitted : List String) (w : Where) : Prop where
  named : (∀ clause ∈ w, OnName name clause) ∨ nameConditions name w = []
  kept : ∀ clause ∈ w, ∀ obj ∈ permitted, Accepts name w obj →
    ∃ clause' ∈ w, ∀ c ∈ clause',
      c = newCondition name obj ∨ (∃ text, c = prefixCondition name text ∧ startswith obj text = true) ∨
        (remaining name permitted clause).head? = some c

/-- Whatever the other conditions mean. -/
theorem KeptClauses.harmless (h : KeptClauses name permitted w) (sem : Semantics)
    (hmeets : ∀ text row, startswith (row name) text = true →
      sem.sat (prefixCondition name text) row) : Harmless sem name permitted w where
  covered clause hclause hname row _ _ := by
    rcases h.named with hnamed | hnone
    · exact absurd (hnamed clause hclause) hname
    · exact .inl hnone
  implied clause hclause row hrow hacc hfirst := by
    obtain ⟨clause', hclause', hsub⟩ := h.kept clause hclause (row name) hrow hacc
    refine ⟨clause', hclause', fun c hc => ?_⟩
    rcases hsub c hc with rfl | ⟨text, rfl, hstarts⟩ | hhead
    · exact (sem.equal name (row name) row).mpr rfl
    · exact hmeets text row hstarts
    · exact hfirst c hhead

theorem update_where_clause_permittedNames (auth_uri : String) (where_clause : Option Where)
    (obj_list : List String) (name : String) (pfx : Option String) :
    update_where_clause auth_uri where_clause obj_list name pfx =
      update_where_clause auth_uri where_clause (permittedNames pfx obj_list) name none := by
  cases pfx <;> rfl

/-- A row that meets a condition on the name is of an object that the condition accepts. -/
theorem accepts_of_sat (sem : MatchSemantics) {auth_uri : String}
    (hfault : firstFault auth_uri permitted (nameConditions name w) = none) {clause : Clause}
    (hclause : clause ∈ w) (hname : OnName name clause) {row : Row}
    (hsat : ∀ c ∈ clause, sem.sat c row) : Accepts name w (row name) := by
  obtain ⟨c, hc, rfl, hop⟩ := hname
  obtain ⟨i, hi⟩ := List.mem_iff_getElem?.mp hclause
  have hmem : (i, c) ∈ nameConditions c.name w := mem_nameConditions.mpr ⟨clause, hi, hc, rfl⟩
  have hnone : c.fault auth_uri permitted = none := List.findSome?_eq_none_iff.mp hfault _ hmem
  refine .inr ⟨(i, c), hmem, ?_⟩
  show c.accepts (row c.name) = true
  rcases hop with hop | hop
  · have hnot : c.op ≠ MatchOp.PREFIX := by
      rw [hop]
      decide
    rw [Condition.fault, if_neg hnot] at hnone
    have hvalue : c.value ∈ permitted.map Value.str := by
      by_contra hvalue
      rw [if_pos ⟨hop, hvalue⟩] at hnone
      cases hnone
    obtain ⟨s, -, hs⟩ := List.mem_map.mp hvalue
    rw [Condition.accepts, if_neg hnot, sem.sat_equal c row s hop hs.symm (hsat c hc)]
    exact decide_eq_true ⟨hop, hs⟩
  · rw [Condition.fault, if_pos hop] at hnone
    rw [Condition.accepts, if_pos hop]
    cases hvalue : c.value with
    | str s => exact sem.sat_prefix c row s hop hvalue (hsat c hc)
    | num n =>
      rw [hvalue] at hnone
      cases hnone
    | null =>
      rw [hvalue] at hnone
      cases hnone

/-- The paired clauses admit the rows that the WHERE admits. -/
theorem final_sameRows_iff (sem : MatchSemantics) {auth_uri : String}
    (hfault : firstFault auth_uri permitted (nameConditions name w) = none) :
    (∀ row, row name ∈ permitted → (sem.Admits (some (final_clause_list
        (rewriteAll name (nameConditions name w) permitted w))) row ↔ sem.Admits (some w) row)) ↔
      Harmless sem.toSemantics name permitted w := by
  constructor
  · intro h
    refine ⟨fun clause hclause _ row hrow hsat => ?_, fun clause hclause row hrow hacc hfirst => ?_⟩
    · exact ((admits_final_iff hrow).mp ((h row hrow).mpr ⟨clause, hclause, hsat⟩)).1
    · exact (h row hrow).mp ((admits_final_iff hrow).mpr ⟨hacc, clause, hclause, hfirst⟩)
  · intro h row hrow
    rw [admits_final_iff hrow]
    constructor
    · intro ⟨hacc, clause, hclause, hfirst⟩
      exact h.implied clause hclause row hrow hacc hfirst
    · intro ⟨clause, hclause, hsat⟩
      have hacc : Accepts name w (row name) := by
        by_cases hname : OnName name clause
        · exact accepts_of_sat sem hfault hclause hname hsat
        · exact h.covered clause hclause hname row hrow hsat
      refine ⟨hacc, clause, hclause, fun first hfirst => ?_⟩
      exact hsat first (List.mem_filter.mp (List.mem_of_head? hfirst)).1

/-- A rewrite without an exception, where something is permitted. -/
theorem rewritten_sameRows_iff (sem : MatchSemantics) {auth_uri : String} {where_clause : Option Where}
    (hpermitted : permitted ≠ [])
    (hfault : firstFault auth_uri permitted (nameConditions name (where_clause.getD [])) = none) :
    sem.SameRows name permitted where_clause (.ok
      (let r := rewriteAll name (nameConditions name (where_clause.getD [])) permitted
        (where_clause.getD [])
      if r.where_clause_list.length = 0 then some (r.new_clause_list.map fun c => [c])
      else if r.new_clause_list.length > 0 then some (final_clause_list r)
      else some r.where_clause_list)) ↔
      where_clause = none ∨ (where_clause ≠ some [] ∧
        (SomeAccepted name permitted (where_clause.getD []) →
          Harmless sem.toSemantics name permitted (where_clause.getD []))) := by
  have hfrom := rewriteAll_from name (nameConditions name (where_clause.getD [])) permitted
    (where_clause.getD [])
  simp only [hfrom.length]
  cases where_clause with
  | none => exact iff_of_true (fun row hrow => iff_of_true (admits_new_iff hrow) trivial) (.inl rfl)
  | some w =>
    cases w with
    | nil =>
      -- a list without clauses admits nothing, and it is replaced
      refine iff_of_false (fun h => ?_) (by simp)
      obtain ⟨obj, hobj⟩ := List.exists_mem_of_ne_nil _ hpermitted
      obtain ⟨clause, hclause, -⟩ := (h (fun _ => obj) hobj).mp (admits_new_iff hobj)
      cases hclause
    | cons clause rest =>
      show sem.SameRows name permitted _ (.ok (if rest.length + 1 = 0 then _ else _)) ↔ _
      rw [if_neg (Nat.succ_ne_zero _), Option.getD_some]
      have hlist : (some (clause :: rest) : Option Where) ≠ some [] := by simp
      by_cases hacc : SomeAccepted name permitted (clause :: rest)
      · rw [if_pos (List.length_pos_iff.mpr (rewriteAll_new_ne_nil.mpr hacc))]
        refine (final_sameRows_iff sem hfault).trans ?_
        exact ⟨fun h => .inr ⟨hlist, fun _ => h⟩,
          fun h => (h.resolve_left (by simp)).2 hacc⟩
      · have hnil : (rewriteAll name (nameConditions name (clause :: rest)) permitted
            (clause :: rest)).new_clause_list = [] := by
          by_contra hne
          exact hacc (rewriteAll_new_ne_nil.mp hne)
        have hsame := hfrom.untouched hnil
        rw [Option.getD_some] at hsame
        rw [hnil, hsame]
        exact iff_of_true (fun _ _ => Iff.rfl) (.inr ⟨hlist, fun h => absurd h hacc⟩)

/-- With such clauses the rewrite changes nothing over the rows of permitted names. -/
theorem sameRows_of_keptClauses (sem : MatchSemantics) {auth_uri : String} {obj_list : List String}
    {pfx : Option String} (hvalues : NoEmptyValue name w) (hw : w ≠ [])
    (hpermitted : permittedNames pfx obj_list ≠ [])
    (hfault : firstFault auth_uri (permittedNames pfx obj_list) (nameConditions name w) = none)
    (hmeets : ∀ text row, startswith (row name) text = true →
      sem.sat (prefixCondition name text) row)
    (hkept : KeptClauses name (permittedNames pfx obj_list) w) :
    sem.SameRows name (permittedNames pfx obj_list) (some w)
      (update_where_clause auth_uri (some w) obj_list name pfx) := by
  rw [update_where_clause_permittedNames]
  rcases update_where_clause_eq auth_uri (some w) (permittedNames pfx obj_list) name with
    ⟨hempty, -⟩ | ⟨-, heq⟩
  · exact absurd hvalues hempty
  · rw [heq, if_neg hpermitted, show firstFault auth_uri (permittedNames pfx obj_list)
      (nameConditions name ((some w).getD [])) = none from hfault]
    exact (rewritten_sameRows_iff sem hpermitted hfault).mpr
      (.inr ⟨fun h => hw (Option.some.inj h), fun _ => hkept.harmless sem.toSemantics hmeets⟩)

/-- Exactly when `update_where_clause` rejects or admits the rows of permitted names as before: a
condition on the name is empty, nothing is permitted, the query is rejected; or there is no
exception, and no WHERE, or one of which what is dropped is not missed. -/
theorem sameRows_iff (sem : MatchSemantics) (auth_uri : String) (where_clause : Option Where)
    (obj_list : List String) (name : String) (pfx : Option String) :
    sem.SameRows name (permittedNames pfx obj_list) where_clause
        (update_where_clause auth_uri where_clause obj_list name pfx) ↔
      ¬ NoEmptyValue name (where_clause.getD []) ∨ permittedNames pfx obj_list = [] ∨
        firstFault auth_uri (permittedNames pfx obj_list)
          (nameConditions name (where_clause.getD [])) = some (forbidden auth_uri) ∨
        (firstFault auth_uri (permittedNames pfx obj_list)
            (nameConditions name (where_clause.getD [])) = none ∧
          (where_clause = none ∨ (where_clause ≠ some [] ∧
            (SomeAccepted name (permittedNames pfx obj_list) (where_clause.getD []) →
              Harmless sem.toSemantics name (permittedNames pfx obj_list)
                (where_clause.getD []))))) := by
  rw [update_where_clause_permittedNames]
  generalize permittedNames pfx obj_list = permitted
  rcases update_where_clause_eq auth_uri where_clause permitted name with
    ⟨hvalues, heq⟩ | ⟨hvalues, heq⟩
  · rw [heq]
    exact iff_of_true (fun _ _ => Iff.rfl) (.inl hvalues)
  rw [heq]
  by_cases hpermitted : permitted = []
  · subst hpermitted
    rw [if_pos rfl]
    exact iff_of_true (fun _ hrow => absurd hrow List.not_mem_nil) (.inr (.inl rfl))
  rw [if_neg hpermitted]
  cases hfault : firstFault auth_uri permitted (nameConditions name (where_clause.getD [])) with
  | some e =>
    rcases firstFault_cases hfault with rfl | rfl
    · exact iff_of_true rfl (.inr (.inr (.inl rfl)))
    · refine iff_of_false id ?_
      intro h
      rcases h with h | h | h | h
      · exact h hvalues
      · exact hpermitted h
      · cases h
      · cases h.1
  | none =>
    refine (rewritten_sameRows_iff sem hpermitted hfault).trans ?_
    constructor
    · exact fun h => .inr (.inr (.inr ⟨rfl, h⟩))
    · intro h
      rcases h with h | h | h | h
      · exact absurd hvalues h
      · exact absurd h hpermitted
      · cases h
      · exact h.2

/-- Columns of text, as conditions of this kind. -/
def textMatchSemantics : MatchSemantics where
  toSemantics := textSemantics
  sat_equal c row s hop hvalue hsat := by
    change (if c.op = MatchOp.EQUAL then row c.name = c.value.text else _) at hsat
    rwa [if_pos hop, hvalue] at hsat
  sat_prefix c row s hop hvalue hsat := by
    change (if c.op = MatchOp.EQUAL then _ else if c.op = MatchOp.PREFIX then
      startswith (row c.name) c.value.text = true else _) at hsat
    rwa [if_neg (by rw [hop]; decide), if_pos hop, hvalue] at hsat

/-- Two conditions on other columns. -/
def twoColumnsWhere : Where :=
  [[{ name := "Source", value := .str "a1", op := MatchOp.EQUAL },
    { name := "ModuleId", value := .str "vrouter-agent", op := MatchOp.EQUAL }]]

/-- The second of them is dropped. -/
theorem not_sameRows :
    ¬ ∀ (sem : MatchSemantics) (auth_uri : String) (where_clause : Option Where)
      (obj_list : List String) (name : String) (pfx : Option String),
      sem.SameRows name (permittedNames pfx obj_list) where_clause
        (update_where_clause auth_uri where_clause obj_list name pfx) := by
  intro h
  have hrows := h textMatchSemantics "" (some twoColumnsWhere) ["default:admin:vn1"] "ObjectId" none
  have hrewritten : update_where_clause "" (some twoColumnsWhere) ["default:admin:vn1"] "ObjectId" none =
      .ok (some [[{ name := "Source", value := .str "a1", op := MatchOp.EQUAL },
        newCondition "ObjectId" "default:admin:vn1"]]) := by
    decide
  rw [hrewritten] at hrows
  have hadmits := hrows (fun c => if c = "Source" then "a1" else "default:admin:vn1")
    (List.mem_singleton.mpr rfl)
  obtain ⟨clause, hclause, hsat⟩ := hadmits.mp ⟨_, List.mem_singleton.mpr rfl, fun c hc => by
    rcases List.mem_cons.mp hc with rfl | hc
    · rfl
    · rw [List.mem_singleton.mp hc]
      rfl⟩
  rw [List.mem_singleton.mp hclause] at hsat
  have hmodule : ("default:admin:vn1" : String) = "vrouter-agent" :=
    hsat { name := "ModuleId", value := .str "vrouter-agent", op := MatchOp.EQUAL } (by simp)
  exact absurd hmodule (by decide)

end TfAnalytics.OpServer
