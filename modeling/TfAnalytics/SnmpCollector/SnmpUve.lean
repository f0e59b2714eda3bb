import Mathlib
import TfAnalytics.Lib.Dict

/-!
# SNMP collector — interface statistics

`SnmpUve.get_diff` (snmpuve.py) merges the two interface tables of a scan by interface name,
adds up the packet counters (`make_composites`), and sends for each interface what its
counters have gone up since they were last there. A counter that a scan does not have keeps
its old value. A sum of packets is made of what the scan has: without one of its counters it
is less than before, which is sent as 0 and kept as the value to compare with.

* `get_diff_spec`: what a scan leaves and what it sends, for one interface;
* `emitted_runScans`: what a run has sent in all;
* `stats_add_up`: the runs in which that is what the counters have gone up.
-/

namespace TfAnalytics.SnmpCollector

open TfAnalytics.Lib

-- ---------------------------------------------------------------------------
-- The tables
-- ---------------------------------------------------------------------------

def _composite_rules : List (String × List String) :=
  [("ifInPkts", ["ifInUcastPkts", "ifInBroadcastPkts", "ifInMulticastPkts"]),
    ("ifOutPkts", ["ifOutUcastPkts", "ifOutBroadcastPkts", "ifOutMulticastPkts"])]

def stat_list : List String :=
  ["ifInPkts", "ifOutPkts", "ifInOctets", "ifOutOctets", "ifInDiscards", "ifInErrors",
    "ifOutDiscards", "ifOutErrors"]

/-- A row of `ifTable` or `ifXTable`: its names, its index and its counters. There is no
column for the sums. -/
structure IfEntry where
  ifDescr : Option String
  ifName : Option String
  values : Dict String Nat
  no_sums : ∀ rule ∈ _composite_rules, values.find? rule.1 = none

structure IfMib where
  ifTable : List IfEntry
  ifXTable : List IfEntry

/-- What is sent for an interface; `ifStats` of an interface that is new is empty. -/
structure IfStats where
  ifIndex : Option Nat
  ifName : Option String
  values : Dict String Int

/-- The member `if_stat`: for each device and interface the counters when they were last
there. -/
structure SnmpUve where
  if_stat : Dict String (Dict String (Dict String Nat))

-- ---------------------------------------------------------------------------
-- get_diff
-- ---------------------------------------------------------------------------

namespace SnmpUve

/-- One component, if the entry has it. -/
def addComponent (k : String) (ife : Dict String Nat) (cmpsr : String) : Dict String Nat :=
  match ife.find? cmpsr with
  | none => ife
  | some v =>
    let ife := if (ife.find? k).isNone then ife.set k 0 else ife
    ife.set k ((ife.find? k).getD 0 + v)

def make_composites (ife : Dict String Nat) : Dict String Nat :=
  _composite_rules.foldl (fun ife rule => rule.2.foldl (addComponent rule.1) ife) ife

/-- `iftables[ifname].update(ife)`; an entry without a name is left out. -/
def addEntry (iftables : Dict String (Dict String Nat)) (ife : IfEntry) :
    Dict String (Dict String Nat) :=
  match ife.ifDescr.or ife.ifName with
  | none => iftables
  | some ifname =>
    iftables.set ifname (((iftables.find? ifname).getD Dict.empty).update ife.values)

def iftables (ifMib : IfMib) : Dict String (Dict String Nat) :=
  (ifMib.ifTable ++ ifMib.ifXTable).foldl addEntry Dict.empty

/-- A difference, with `0` for a negative one. -/
def diffStat (old new : Dict String Nat) (d : Dict String Int) (k : String) : Dict String Int :=
  match new.find? k, old.find? k with
  | some v, some v0 =>
    let x := (v : Int) - v0
    d.set k (if x < 0 then 0 else x)
  | _, _ => d

/-- `none` is the `KeyError` for an entry without an index. -/
def diff (old new : Dict String Nat) (ifname : String) : Option IfStats :=
  (new.find? "ifIndex").map fun ifIndex =>
    { ifIndex := some ifIndex
      ifName := some ifname
      values := stat_list.foldl (diffStat old new) Dict.empty }

def stat_req (d : Dict String Nat) : Dict String Nat :=
  stat_list.foldl
    (fun r k => match d.find? k with
      | some v => r.set k v
      | none => r)
    Dict.empty

/-- One interface of the second loop, with the `if_stat` of the device. -/
def addInterface (acc : Dict String (Dict String Nat) × List IfStats)
    (table : String × Dict String Nat) : Option (Dict String (Dict String Nat) × List IfStats) :=
  let ife := make_composites table.2
  let stat := match acc.1.find? table.1 with
    | some old => diff old ife table.1
    | none => some ⟨none, none, Dict.empty⟩
  stat.map fun x =>
    (acc.1.set table.1 (((acc.1.find? table.1).getD Dict.empty).update (stat_req ife)),
      acc.2 ++ [x])

/-- The second part is `ifStats`. -/
def get_diff (self : SnmpUve) (pname : String) (ifMib : IfMib) : Option (SnmpUve × List IfStats) :=
  ((iftables ifMib).entries.foldlM addInterface
    ((self.if_stat.find? pname).getD Dict.empty, [])).map fun r =>
      (⟨self.if_stat.set pname r.1⟩, r.2)

/-- All that is sent for the scans of a device. -/
def runScans (pname : String) : SnmpUve → List IfMib → Option (SnmpUve × List IfStats)
  | self, [] => some (self, [])
  | self, ifMib :: rest => do
    let (self, stats) ← self.get_diff pname ifMib
    let (self, later) ← runScans pname self rest
    some (self, stats ++ later)

end SnmpUve

-- ---------------------------------------------------------------------------
-- One interface
-- ---------------------------------------------------------------------------

namespace SnmpUve

/-- The sum of the components that are there, if any is. -/
def presentSum (ife : Dict String Nat) : List String → Option Nat
  | [] => none
  | c :: components =>
    match ife.find? c with
    | none => presentSum ife components
    | some v => some (v + (presentSum ife components).getD 0)

theorem getD_presentSum (ife : Dict String Nat) (components : List String) :
    (presentSum ife components).getD 0 = (components.map fun c => (ife.find? c).getD 0).sum := by
  induction components with
  | nil => rfl
  | cons c components ih =>
    rw [presentSum, List.map_cons, List.sum_cons, ← ih]
    cases ife.find? c <;> simp

theorem isSome_presentSum_iff (ife : Dict String Nat) (components : List String) :
    (presentSum ife components).isSome ↔ ∃ c ∈ components, (ife.find? c).isSome := by
  induction components with
  | nil => simp [presentSum]
  | cons c components ih =>
    rw [presentSum, List.exists_mem_cons_iff]
    cases ife.find? c <;> simp [ih]

theorem presentSum_congr {ife ife' : Dict String Nat} {components : List String}
    (h : ∀ c ∈ components, ife'.find? c = ife.find? c) :
    presentSum ife' components = presentSum ife components := by
  induction components with
  | nil => rfl
  | cons c components ih =>
    rw [List.forall_mem_cons] at h
    rw [presentSum, presentSum, h.1, ih h.2]

theorem find?_addComponent_of_ne {k k' : String} (hk : k' ≠ k) (ife : Dict String Nat) (c : String) :
    (addComponent k ife c).find? k' = ife.find? k' := by
  unfold addComponent
  split
  · rfl
  · by_cases hnone : (ife.find? k).isNone <;> simp [hnone, hk]

theorem find?_addComponent_self (k : String) (ife : Dict String Nat) (c : String) :
    (addComponent k ife c).find? k =
      match ife.find? c with
      | none => ife.find? k
      | some v => some ((ife.find? k).getD 0 + v) := by
  unfold addComponent
  cases ife.find? c with
  | none => rfl
  | some v =>
    cases hfind : ife.find? k with
    | none => simp
    | some v0 => simp [hfind]

theorem find?_foldl_addComponent_of_ne {k k' : String} (hk : k' ≠ k) (components : List String)
    (ife : Dict String Nat) : (components.foldl (addComponent k) ife).find? k' = ife.find? k' := by
  induction components generalizing ife with
  | nil => rfl
  | cons c components ih => rw [List.foldl_cons, ih, find?_addComponent_of_ne hk]

theorem find?_foldl_addComponent {k : String} {components : List String} (hk : k ∉ components)
    (ife : Dict String Nat) :
    (components.foldl (addComponent k) ife).find? k =
      match presentSum ife components with
      | none => ife.find? k
      | some sum => some ((ife.find? k).getD 0 + sum) := by
  induction components generalizing ife with
  | nil => rfl
  | cons c components ih =>
    rw [List.mem_cons, not_or] at hk
    have hrest : presentSum (addComponent k ife c) components = presentSum ife components := by
      refine presentSum_congr fun c' hc' => find?_addComponent_of_ne (fun heq => hk.2 ?_) ife c
      exact heq ▸ hc'
    rw [List.foldl_cons, ih hk.2, hrest, find?_addComponent_self, presentSum]
    cases ife.find? c with
    | none => rfl
    | some v =>
      cases presentSum ife components with
      | none => rfl
      | some sum => simp [Nat.add_assoc]

/-- A sum is not yet there before, so it is that of its components. -/
theorem find?_make_composites {ife : Dict String Nat}
    (h : ∀ rule ∈ _composite_rules, ife.find? rule.1 = none) (k : String) :
    (make_composites ife).find? k =
      match _composite_rules.lookup k with
      | some components => presentSum ife components
      | none => ife.find? k := by
  obtain ⟨hin, hout, -⟩ := by simpa only [_composite_rules, List.forall_mem_cons] using h
  show ((["ifOutUcastPkts", "ifOutBroadcastPkts", "ifOutMulticastPkts"].foldl
    (addComponent "ifOutPkts") (["ifInUcastPkts", "ifInBroadcastPkts", "ifInMulticastPkts"].foldl
      (addComponent "ifInPkts") ife)).find? k) = _
  by_cases hkout : k = "ifOutPkts"
  · subst hkout
    have hcomponents : presentSum (["ifInUcastPkts", "ifInBroadcastPkts", "ifInMulticastPkts"].foldl
        (addComponent "ifInPkts") ife) ["ifOutUcastPkts", "ifOutBroadcastPkts", "ifOutMulticastPkts"] =
        presentSum ife ["ifOutUcastPkts", "ifOutBroadcastPkts", "ifOutMulticastPkts"] :=
      presentSum_congr fun c hc => find?_foldl_addComponent_of_ne
        (fun heq => absurd (heq ▸ hc) (by decide)) _ ife
    rw [find?_foldl_addComponent (by decide), hcomponents,
      find?_foldl_addComponent_of_ne (by decide), hout]
    show _ = presentSum ife _
    cases presentSum ife ["ifOutUcastPkts", "ifOutBroadcastPkts", "ifOutMulticastPkts"] <;> simp
  · rw [find?_foldl_addComponent_of_ne hkout]
    by_cases hkin : k = "ifInPkts"
    · subst hkin
      rw [find?_foldl_addComponent (by decide), hin]
      show _ = presentSum ife _
      cases presentSum ife ["ifInUcastPkts", "ifInBroadcastPkts", "ifInMulticastPkts"] <;> simp
    · have hnone : _composite_rules.lookup k = none := by
        simp [_composite_rules, List.lookup_cons, beq_eq_false_iff_ne.mpr hkin,
          beq_eq_false_iff_ne.mpr hkout]
      rw [find?_foldl_addComponent_of_ne hkin, hnone]

-- ---------------------------------------------------------------------------
-- The statistics of an interface
-- ---------------------------------------------------------------------------

theorem find?_stat_req (d : Dict String Nat) (k : String) :
    (stat_req d).find? k = if k ∈ stat_list then d.find? k else none := by
  unfold stat_req
  rw [Dict.find?_foldl_or (o := d.find?)]
  · simp
  · intro r k k'
    by_cases hk : k = k'
    · subst hk
      cases hd : d.find? k <;> simp
    · cases hd : d.find? k' <;> simp [hk]

/-- The difference that is sent. -/
def climb (old new : Option Nat) : Option Int :=
  match new, old with
  | some v, some v0 => some (max 0 ((v : Int) - v0))
  | _, _ => none

theorem find?_diffStat (old new : Dict String Nat) (d : Dict String Int) (k k' : String) :
    (diffStat old new d k').find? k =
      if k = k' then (climb (old.find? k) (new.find? k)).or (d.find? k) else d.find? k := by
  unfold diffStat
  by_cases hk : k = k'
  · subst hk
    cases new.find? k with
    | none => simp [climb]
    | some v =>
      cases old.find? k with
      | none => simp [climb]
      | some v0 =>
        have hmax : (if (v : Int) - v0 < 0 then 0 else (v : Int) - v0) = max 0 ((v : Int) - v0) := by
          split <;> omega
        simp only [hmax, climb, Dict.find?_set, if_pos, Option.some_or]
  · cases new.find? k' <;> cases old.find? k' <;> simp [hk]

theorem find?_diff {old new : Dict String Nat} {ifname : String} {x : IfStats}
    (h : diff old new ifname = some x) (k : String) :
    x.ifName = some ifname ∧ x.values.find? k =
      if k ∈ stat_list then climb (old.find? k) (new.find? k) else none := by
  obtain ⟨ifIndex, -, rfl⟩ := Option.map_eq_some_iff.mp h
  refine ⟨rfl, ?_⟩
  show (stat_list.foldl (diffStat old new) Dict.empty).find? k = _
  rw [Dict.find?_foldl_or (o := fun k => climb (old.find? k) (new.find? k))
    (find?_diffStat old new)]
  simp

/-- A counter of an interface as it was last. -/
def statOf (if_stat : Dict String (Dict String Nat)) (i k : String) : Option Nat :=
  (if_stat.find? i).bind fun d => d.find? k

/-- What has been sent for a counter of an interface, in all. -/
def emitted (stats : List IfStats) (i k : String) : Int :=
  ((stats.filter fun x => x.ifName = some i).map fun x => (x.values.find? k).getD 0).sum

@[simp] theorem emitted_append (xs ys : List IfStats) (i k : String) :
    emitted (xs ++ ys) i k = emitted xs i k + emitted ys i k := by
  simp [emitted]

theorem emitted_singleton (x : IfStats) (i k : String) :
    emitted [x] i k = if x.ifName = some i then (x.values.find? k).getD 0 else 0 := by
  by_cases hname : x.ifName = some i <;> simp [emitted, hname]

/-- Nothing negative is sent. -/
def NonNegative (stats : List IfStats) : Prop :=
  ∀ x ∈ stats, ∀ k v, x.values.find? k = some v → 0 ≤ v

theorem climb_nonneg {old new : Option Nat} {v : Int} (h : climb old new = some v) : 0 ≤ v := by
  cases new with
  | none => cases h
  | some n =>
    cases old with
    | none => cases h
    | some o => exact Option.some.inj h ▸ Int.le_max_left 0 _

/-- The stored counters and the differences, after one interface. -/
theorem addInterface_spec {acc r : Dict String (Dict String Nat) × List IfStats}
    {table : String × Dict String Nat} (h : addInterface acc table = some r)
    (hacc : NonNegative acc.2) :
    NonNegative r.2 ∧ ∀ i k, k ∈ stat_list →
      statOf r.1 i k = (if i = table.1 then (make_composites table.2).find? k else none).or
        (statOf acc.1 i k) ∧
      emitted r.2 i k = emitted acc.2 i k + (climb (statOf acc.1 i k)
        (if i = table.1 then (make_composites table.2).find? k else none)).getD 0 := by
  obtain ⟨x, hx, rfl⟩ := Option.map_eq_some_iff.mp h
  -- what is sent for the interface
  have hsent : (∀ k v, x.values.find? k = some v → 0 ≤ v) ∧ ∀ i k, k ∈ stat_list →
      emitted [x] i k = (climb (statOf acc.1 i k)
        (if i = table.1 then (make_composites table.2).find? k else none)).getD 0 := by
    cases hold : acc.1.find? table.1 with
    | none =>
      rw [hold] at hx
      obtain rfl := Option.some.inj hx
      refine ⟨fun k v hv => by simp at hv, fun i k _ => ?_⟩
      rw [emitted_singleton, if_neg (by simp)]
      by_cases hi : i = table.1
      · subst hi
        cases (make_composites table.2).find? k <;> simp [statOf, hold, climb]
      · simp [hi, climb]
    | some old =>
      rw [hold] at hx
      have hdiff := fun k => find?_diff hx k
      refine ⟨fun k v hv => ?_, fun i k hk => ?_⟩
      · rw [(hdiff k).2] at hv
        split at hv
        · exact climb_nonneg hv
        · cases hv
      · rw [emitted_singleton, (hdiff k).1, (hdiff k).2, if_pos hk]
        by_cases hi : i = table.1
        · subst hi
          simp [statOf, hold]
        · simp [hi, Ne.symm hi, climb]
  refine ⟨?_, fun i k hk => ⟨?_, ?_⟩⟩
  · intro y hy
    rcases List.mem_append.mp hy with hy | hy
    · exact hacc y hy
    · rw [List.mem_singleton.mp hy]
      exact hsent.1
  · show ((acc.1.set table.1 _).find? i).bind _ = _
    by_cases hi : i = table.1
    · subst hi
      cases hold : acc.1.find? table.1 <;>
        simp [statOf, hold, find?_stat_req, hk]
    · simp [statOf, hi]
  · rw [emitted_append, hsent.2 i k hk]

theorem addInterface_isSome {acc : Dict String (Dict String Nat) × List IfStats}
    {table : String × Dict String Nat} (h : ((make_composites table.2).find? "ifIndex").isSome) :
    (addInterface acc table).isSome := by
  unfold addInterface
  cases acc.1.find? table.1 with
  | none => rfl
  | some old => simpa [diff] using h

/-- The same after all of them. -/
theorem foldlM_addInterface {tables : List (String × Dict String Nat)}
    (hnodup : (tables.map Prod.fst).Nodup)
    (hindex : ∀ table ∈ tables, ((make_composites table.2).find? "ifIndex").isSome)
    {acc : Dict String (Dict String Nat) × List IfStats} (hacc : NonNegative acc.2) :
    ∃ r, tables.foldlM addInterface acc = some r ∧ NonNegative r.2 ∧ ∀ i k, k ∈ stat_list →
      statOf r.1 i k = ((tables.lookup i).bind fun ife => (make_composites ife).find? k).or
        (statOf acc.1 i k) ∧
      emitted r.2 i k = emitted acc.2 i k + (climb (statOf acc.1 i k)
        ((tables.lookup i).bind fun ife => (make_composites ife).find? k)).getD 0 := by
  induction tables generalizing acc with
  | nil =>
    refine ⟨acc, rfl, hacc, fun i k _ => ⟨rfl, ?_⟩⟩
    simp [climb]
  | cons table tables ih =>
    rw [List.map_cons, List.nodup_cons] at hnodup
    obtain ⟨hfirst, hindex⟩ := List.forall_mem_cons.mp hindex
    obtain ⟨r₁, hr₁⟩ := Option.isSome_iff_exists.mp (@addInterface_isSome acc table hfirst)
    obtain ⟨hacc₁, hone⟩ := addInterface_spec hr₁ hacc
    obtain ⟨r, hr, hnonneg, hrest⟩ := ih hnodup.2 hindex hacc₁
    refine ⟨r, ?_, hnonneg, fun i k hk => ?_⟩
    · rw [List.foldlM_cons, hr₁]
      exact hr
    · obtain ⟨hstat, hemitted⟩ := hone i k hk
      obtain ⟨hstat', hemitted'⟩ := hrest i k hk
      rw [hstat', hemitted', hstat, hemitted, List.lookup_cons]
      by_cases hi : i = table.1
      · have hnone : tables.lookup i = none := by
          rw [← Option.not_isSome_iff_eq_none, lookup_isSome_iff_mem, hi]
          exact hnodup.1
        simp [hi, hi ▸ hnone, climb]
      · simp [hi, beq_eq_false_iff_ne.mpr hi, climb]

/-- A value of an interface in a scan, with the sums made. -/
def reportedOf (ifMib : IfMib) (i k : String) : Option Nat :=
  ((iftables ifMib).find? i).bind fun ife => (make_composites ife).find? k

/-- Every interface of the scan has its index. -/
def Indexed (ifMib : IfMib) : Prop :=
  ∀ i ife, (iftables ifMib).find? i = some ife → (ife.find? "ifIndex").isSome

/-- The merged rows have no sums either. -/
theorem no_sums_iftables (ifMib : IfMib) {i : String} {ife : Dict String Nat}
    (h : (iftables ifMib).find? i = some ife) :
    ∀ rule ∈ _composite_rules, ife.find? rule.1 = none := by
  have hloop : ∀ (l : List IfEntry) (tables : Dict String (Dict String Nat)),
      (∀ i ife, tables.find? i = some ife → ∀ rule ∈ _composite_rules, ife.find? rule.1 = none) →
      ∀ i ife, (l.foldl addEntry tables).find? i = some ife →
        ∀ rule ∈ _composite_rules, ife.find? rule.1 = none := by
    intro l
    induction l with
    | nil => exact fun _ htables => htables
    | cons entry l ih =>
      intro tables htables
      refine ih _ fun i ife hife rule hrule => ?_
      unfold addEntry at hife
      split at hife
      · exact htables i ife hife rule hrule
      · rename_i ifname _
        rw [Dict.find?_set] at hife
        split at hife
        · obtain rfl := Option.some.inj hife
          rw [Dict.find?_update, entry.no_sums rule hrule, Option.none_or]
          cases hold : tables.find? ifname with
          | none => rfl
          | some old => exact htables ifname old hold rule hrule
        · exact htables i ife hife rule hrule
  exact hloop _ Dict.empty (fun _ _ hnone => by cases hnone) i ife h

theorem reportedOf_eq (ifMib : IfMib) (i k : String) :
    reportedOf ifMib i k = ((iftables ifMib).find? i).bind fun ife =>
      match _composite_rules.lookup k with
      | some components => presentSum ife components
      | none => ife.find? k := by
  unfold reportedOf
  cases hfind : (iftables ifMib).find? i with
  | none => rfl
  | some ife => exact find?_make_composites (no_sums_iftables ifMib hfind) k

/-- One scan: a value that is there is stored, and its difference is sent. -/
theorem get_diff_spec (self : SnmpUve) (pname : String) {ifMib : IfMib} (h : Indexed ifMib) :
    ∃ r, self.get_diff pname ifMib = some r ∧ NonNegative r.2 ∧ ∀ i k, k ∈ stat_list →
      statOf ((r.1.if_stat.find? pname).getD Dict.empty) i k =
        (reportedOf ifMib i k).or (statOf ((self.if_stat.find? pname).getD Dict.empty) i k) ∧
      emitted r.2 i k = (climb (statOf ((self.if_stat.find? pname).getD Dict.empty) i k)
        (reportedOf ifMib i k)).getD 0 := by
  have hindex : ∀ table ∈ (iftables ifMib).entries,
      ((make_composites table.2).find? "ifIndex").isSome := by
    intro table htable
    have hfind := Dict.mem_entries.mp htable
    rw [find?_make_composites (no_sums_iftables ifMib hfind)]
    exact h table.1 table.2 hfind
  have hnothing : NonNegative ((self.if_stat.find? pname).getD Dict.empty, ([] : List IfStats)).2 :=
    fun _ hx => nomatch hx
  obtain ⟨r, hr, hnonneg, hspec⟩ := foldlM_addInterface (iftables ifMib).nodup hindex hnothing
  refine ⟨_, by rw [get_diff, hr]; rfl, hnonneg, fun i k hk => ?_⟩
  obtain ⟨hstat, hemitted⟩ := hspec i k hk
  constructor
  · show statOf (((self.if_stat.set pname r.1).find? pname).getD Dict.empty) i k = _
    rw [Dict.find?_set, if_pos rfl]
    exact hstat
  · rw [hemitted]
    simp [emitted, reportedOf, Dict.find?]

-- ---------------------------------------------------------------------------
-- A run
-- ---------------------------------------------------------------------------

/-- The values of an interface, scan by scan. -/
def reported (scans : List IfMib) (i k : String) : List Nat :=
  scans.filterMap fun ifMib => reportedOf ifMib i k

/-- The sum of the differences that are not negative. -/
def climbs : List Nat → Int
  | [] => 0
  | [_] => 0
  | v :: v' :: rest => max 0 ((v' : Int) - v) + climbs (v' :: rest)

theorem emitted_runScans (pname : String) {scans : List IfMib}
    (h : ∀ ifMib ∈ scans, Indexed ifMib) (self : SnmpUve) :
    ∃ r, runScans pname self scans = some r ∧ NonNegative r.2 ∧ ∀ i k, k ∈ stat_list →
      emitted r.2 i k = climbs
        ((statOf ((self.if_stat.find? pname).getD Dict.empty) i k).toList ++ reported scans i k) := by
  induction scans generalizing self with
  | nil =>
    refine ⟨(self, []), rfl, fun _ hx => (nomatch hx), fun i k _ => ?_⟩
    cases statOf ((self.if_stat.find? pname).getD Dict.empty) i k <;> rfl
  | cons ifMib scans ih =>
    obtain ⟨hfirst, hscans⟩ := List.forall_mem_cons.mp h
    obtain ⟨r₁, hr₁, hnonneg₁, hspec₁⟩ := get_diff_spec self pname hfirst
    obtain ⟨r, hr, hnonneg, hspec⟩ := ih hscans r₁.1
    refine ⟨(r.1, r₁.2 ++ r.2), ?_, ?_, fun i k hk => ?_⟩
    · simp only [runScans, hr₁, hr, Option.bind_eq_bind, Option.bind_some]
    · intro x hx
      exact (List.mem_append.mp hx).elim (hnonneg₁ x) (hnonneg x)
    · obtain ⟨hstat, hemitted⟩ := hspec₁ i k hk
      rw [emitted_append, hspec i k hk, hemitted, hstat]
      generalize statOf ((self.if_stat.find? pname).getD Dict.empty) i k = old
      cases hv : reportedOf ifMib i k with
      | none => simp [climb, reported, hv]
      | some v => cases old <;> simp [climb, climbs, reported, hv]

-- ---------------------------------------------------------------------------
-- What the counters have gone up
-- ---------------------------------------------------------------------------

/-- The last value minus the first one. -/
def rise (values : List Nat) : Int := (values.getLast?.getD 0 : Int) - values.head?.getD 0

theorem climbs_eq_rise {values : List Nat} (h : values.Pairwise (· ≤ ·)) :
    climbs values = rise values := by
  induction values with
  | nil => rfl
  | cons v values ih =>
    obtain ⟨hfirst, hrest⟩ := List.pairwise_cons.mp h
    cases values with
    | nil => simp [climbs, rise]
    | cons v' values =>
      have hle := hfirst v' List.mem_cons_self
      rw [climbs, ih hrest, rise, rise]
      simp only [List.head?_cons, List.getLast?_cons_cons, Option.getD_some]
      omega

/-- The counters that come from the device. -/
def counters : List String :=
  stat_list.filter (fun k => (_composite_rules.lookup k).isNone) ++ _composite_rules.flatMap Prod.snd

/-- The value of a component as it is known after some scans. -/
def latest (before : List IfMib) (i c : String) : Nat := (reported before i c).getLast?.getD 0

def knownSum (before : List IfMib) (i : String) (components : List String) : Nat :=
  (components.map (latest before i)).sum

/-- The scan has one of the components at least. -/
def carries (ifMib : IfMib) (i : String) (components : List String) : Bool :=
  components.any fun c => (reportedOf ifMib i c).isSome

/-- The sum of the latest known components, for every scan that has one of them. -/
def knownSums (i : String) (components : List String) : List IfMib → List IfMib → List Nat
  | _, [] => []
  | before, ifMib :: rest =>
    (if carries ifMib i components then [knownSum (before ++ [ifMib]) i components] else []) ++
      knownSums i components (before ++ [ifMib]) rest

/-- What a statistic stands for, scan by scan. -/
def statValues (scans : List IfMib) (i k : String) : List Nat :=
  match _composite_rules.lookup k with
  | some components => knownSums i components [] scans
  | none => reported scans i k

/-- No counter of an interface goes down. -/
def NonDecreasing (scans : List IfMib) : Prop :=
  ∀ i, ∀ c ∈ counters, (reported scans i c).Pairwise (· ≤ ·)

/-- A scan that has one of the components of a sum has all of them that are known and not
zero. -/
def Complete (scans : List IfMib) : Prop :=
  ∀ before ifMib after, scans = before ++ ifMib :: after → ∀ i, ∀ rule ∈ _composite_rules,
    carries ifMib i rule.2 → ∀ c ∈ rule.2, reportedOf ifMib i c = none → latest before i c = 0

theorem latest_concat (before : List IfMib) (ifMib : IfMib) (i c : String) :
    latest (before ++ [ifMib]) i c = (reportedOf ifMib i c).getD (latest before i c) := by
  unfold latest reported
  rw [List.filterMap_append]
  cases h : reportedOf ifMib i c with
  | none => simp [h]
  | some v => simp [h]

theorem lookup_component {rule : String × List String} (hrule : rule ∈ _composite_rules) {c : String}
    (hc : c ∈ rule.2) : _composite_rules.lookup c = none := by
  have hall : (_composite_rules.all fun rule => rule.2.all fun c =>
      (_composite_rules.lookup c).isNone) = true := by decide
  have hnone := List.all_eq_true.mp (List.all_eq_true.mp hall rule hrule) c hc
  simpa using hnone

theorem lookup_rule {rule : String × List String} (hrule : rule ∈ _composite_rules) :
    _composite_rules.lookup rule.1 = some rule.2 :=
  (mem_iff_lookup (by decide)).mp hrule

/-- The sum that a complete scan makes is that of the latest known components. -/
theorem reportedOf_sum {scans before after : List IfMib} {ifMib : IfMib} (h : Complete scans)
    (hscans : scans = before ++ ifMib :: after) (i : String) {rule : String × List String}
    (hrule : rule ∈ _composite_rules) :
    reportedOf ifMib i rule.1 =
      if carries ifMib i rule.2 then some (knownSum (before ++ [ifMib]) i rule.2) else none := by
  have hcomponent : ∀ c ∈ rule.2, reportedOf ifMib i c =
      ((iftables ifMib).find? i).bind fun ife => ife.find? c := by
    intro c hc
    rw [reportedOf_eq, lookup_component hrule hc]
  have hcomplete := h before ifMib after hscans i rule hrule
  rw [reportedOf_eq, lookup_rule hrule]
  by_cases hcarries : carries ifMib i rule.2 = true
  · obtain ⟨c, hc, hsome⟩ := List.any_eq_true.mp hcarries
    rw [hcomponent c hc] at hsome
    cases hfind : (iftables ifMib).find? i with
    | none =>
      rw [hfind] at hsome
      cases hsome
    | some ife =>
      rw [hfind] at hsome
      obtain ⟨sum, hsum⟩ := Option.isSome_iff_exists.mp
        ((isSome_presentSum_iff ife rule.2).mpr ⟨c, hc, hsome⟩)
      have htotal := getD_presentSum ife rule.2
      rw [hsum, Option.getD_some] at htotal
      have hknown : knownSum (before ++ [ifMib]) i rule.2 = sum := by
        rw [htotal, knownSum]
        congr 1
        refine List.map_congr_left fun c' hc' => ?_
        have hvalue := hcomponent c' hc'
        rw [hfind, Option.bind_some] at hvalue
        rw [latest_concat, hvalue]
        cases hife : ife.find? c' with
        | some v => rfl
        | none => exact hcomplete hcarries c' hc' (hvalue.trans hife)
      rw [if_pos hcarries, hknown, Option.bind_some]
      exact hsum
  · rw [if_neg hcarries]
    cases hfind : (iftables ifMib).find? i with
    | none => rfl
    | some ife =>
      rw [Option.bind_some]
      by_contra hsome
      obtain ⟨c, hc, hpresent⟩ := (isSome_presentSum_iff ife rule.2).mp
        (Option.isSome_iff_ne_none.mpr hsome)
      refine hcarries (List.any_eq_true.mpr ⟨c, hc, ?_⟩)
      rw [hcomponent c hc, hfind]
      exact hpresent

/-- In a run of complete scans the sums that are made are those of the latest known
components. -/
theorem reported_sums {scans before rest : List IfMib} (h : Complete scans)
    (hscans : scans = before ++ rest) (i : String) {rule : String × List String}
    (hrule : rule ∈ _composite_rules) :
    reported rest i rule.1 = knownSums i rule.2 before rest := by
  induction rest generalizing before with
  | nil => rfl
  | cons ifMib rest ih =>
    have hnext : scans = (before ++ [ifMib]) ++ rest := by simp [hscans]
    rw [knownSums, ← ih hnext, reported, List.filterMap_cons, reportedOf_sum h hscans i hrule]
    by_cases hcarries : carries ifMib i rule.2 = true <;> simp [hcarries, reported]

theorem latest_le {before rest : List IfMib} {ifMib : IfMib} {i c : String}
    (h : (reported (before ++ ifMib :: rest) i c).Pairwise (· ≤ ·)) :
    latest before i c ≤ latest (before ++ [ifMib]) i c := by
  rw [latest_concat]
  cases hv : reportedOf ifMib i c with
  | none => exact le_refl _
  | some v =>
    rw [reported, List.filterMap_append, List.filterMap_cons, hv, List.pairwise_append] at h
    cases hlast : (reported before i c).getLast? with
    | none => simp [latest, hlast]
    | some last =>
      rw [latest, hlast]
      exact h.2.2 last (List.mem_of_getLast? hlast) v List.mem_cons_self

theorem knownSum_le {before rest : List IfMib} {ifMib : IfMib} {i : String} {components : List String}
    (h : ∀ c ∈ components, (reported (before ++ ifMib :: rest) i c).Pairwise (· ≤ ·)) :
    knownSum before i components ≤ knownSum (before ++ [ifMib]) i components :=
  List.sum_le_sum fun c hc => latest_le (h c hc)

/-- The known sums do not go down either. -/
theorem pairwise_knownSums {before rest : List IfMib} {i : String} {components : List String}
    (h : ∀ c ∈ components, (reported (before ++ rest) i c).Pairwise (· ≤ ·)) :
    (knownSums i components before rest).Pairwise (· ≤ ·) ∧
      ∀ v ∈ knownSums i components before rest, knownSum before i components ≤ v := by
  induction rest generalizing before with
  | nil => exact ⟨.nil, fun _ hv => nomatch hv⟩
  | cons ifMib rest ih =>
    have hstep := knownSum_le h
    have hrest : before ++ [ifMib] ++ rest = before ++ ifMib :: rest := by simp
    have hlater : ∀ c ∈ components, (reported (before ++ [ifMib] ++ rest) i c).Pairwise (· ≤ ·) := by
      rw [hrest]
      exact h
    obtain ⟨hsorted, hle⟩ := ih hlater
    rw [knownSums]
    split
    · refine ⟨List.pairwise_cons.mpr ⟨hle, hsorted⟩, fun v hv => ?_⟩
      rcases List.mem_cons.mp hv with rfl | hv
      · exact hstep
      · exact hstep.trans (hle v hv)
    · exact ⟨hsorted, fun v hv => hstep.trans (hle v hv)⟩

/-- In a run of complete scans in which no counter goes down, nothing negative is sent, and
what is sent for a statistic adds up to its last value minus its first one. -/
theorem stats_add_up (pname : String) {scans : List IfMib} (hindex : ∀ ifMib ∈ scans, Indexed ifMib)
    (hcounters : NonDecreasing scans) (hcomplete : Complete scans) :
    ∃ r, runScans pname ⟨Dict.empty⟩ scans = some r ∧ NonNegative r.2 ∧
      ∀ i, ∀ k ∈ stat_list, emitted r.2 i k = rise (statValues scans i k) := by
  obtain ⟨r, hr, hnonneg, hspec⟩ := emitted_runScans pname hindex ⟨Dict.empty⟩
  refine ⟨r, hr, hnonneg, fun i k hk => ?_⟩
  have hsent : emitted r.2 i k = climbs (reported scans i k) := by simpa [statOf] using hspec i k hk
  rw [hsent, statValues]
  cases hlookup : _composite_rules.lookup k with
  | none =>
    have hmem : k ∈ counters := by simp [counters, hk, hlookup]
    exact climbs_eq_rise (hcounters i k hmem)
  | some components =>
    have hrule : (k, components) ∈ _composite_rules := (mem_iff_lookup (by decide)).mpr hlookup
    have hmem : ∀ c ∈ components, c ∈ counters := fun c hc =>
      List.mem_append_right _ (List.mem_flatMap.mpr ⟨_, hrule, hc⟩)
    have hsums : reported scans i k = knownSums i components [] scans :=
      reported_sums hcomplete rfl i hrule
    rw [hsums]
    refine climbs_eq_rise (pairwise_knownSums fun c hc => ?_).1
    exact hcounters i c (hmem c hc)

/-- A scan of one interface. -/
def portScan (values : List (String × Nat)) (hkeys : (values.map Prod.fst).Nodup)
    (hsums : ∀ rule ∈ _composite_rules, values.lookup rule.1 = none) : IfMib where
  ifTable := [⟨some "ge-0/0/0", none, ⟨values, hkeys⟩, hsums⟩]
  ifXTable := []

/-- Nothing has come in between the scans, and one of them has no unicast packets. -/
def gapScans : List IfMib :=
  [portScan [("ifIndex", 1), ("ifInUcastPkts", 100), ("ifInBroadcastPkts", 10)] (by decide)
      (by decide),
    portScan [("ifIndex", 1), ("ifInBroadcastPkts", 10)] (by decide) (by decide),
    portScan [("ifIndex", 1), ("ifInUcastPkts", 100), ("ifInBroadcastPkts", 10)] (by decide)
      (by decide)]

/-- Both scans have the two components. -/
def fullScans : List IfMib :=
  [portScan [("ifIndex", 1), ("ifInUcastPkts", 100), ("ifInMulticastPkts", 10)] (by decide)
      (by decide),
    portScan [("ifIndex", 1), ("ifInUcastPkts", 107), ("ifInMulticastPkts", 10)] (by decide)
      (by decide)]

section PortScan

variable {values : List (String × Nat)} {hkeys : (values.map Prod.fst).Nodup}
  {hsums : ∀ rule ∈ _composite_rules, values.lookup rule.1 = none}

theorem find?_iftables_portScan (i : String) :
    (iftables (portScan values hkeys hsums)).find? i =
      if i = "ge-0/0/0" then some (Dict.empty.update ⟨values, hkeys⟩) else none := by
  show (Dict.set _ _ _).find? i = _
  rw [Dict.find?_set]
  rfl

theorem indexed_portScan (hindex : (values.lookup "ifIndex").isSome) :
    Indexed (portScan values hkeys hsums) := by
  intro i ife hfind
  rw [find?_iftables_portScan] at hfind
  split at hfind
  · obtain rfl := Option.some.inj hfind
    rw [Dict.find?_update, Dict.find?_empty, Option.or_none]
    exact hindex
  · cases hfind

theorem reportedOf_portScan_of_ne {i : String} (hi : i ≠ "ge-0/0/0") (c : String) :
    reportedOf (portScan values hkeys hsums) i c = none := by
  rw [reportedOf, find?_iftables_portScan, if_neg hi]
  rfl

end PortScan

/-- With one interface only its counters are to be looked at. -/
theorem nonDecreasing_of_port {scans : List IfMib}
    (hother : ∀ ifMib ∈ scans, ∀ i, i ≠ "ge-0/0/0" → ∀ c, reportedOf ifMib i c = none)
    (hport : (counters.all fun c =>
      decide ((reported scans "ge-0/0/0" c).Pairwise (· ≤ ·))) = true) : NonDecreasing scans := by
  intro i c hc
  by_cases hi : i = "ge-0/0/0"
  · subst hi
    exact of_decide_eq_true (List.all_eq_true.mp hport c hc)
  · have hnone : reported scans i c = [] :=
      List.filterMap_eq_nil_iff.mpr fun ifMib hmem => hother ifMib hmem i hi c
    rw [hnone]
    exact .nil

theorem gapScans_other : ∀ ifMib ∈ gapScans, ∀ i, i ≠ "ge-0/0/0" → ∀ c,
    reportedOf ifMib i c = none := by
  simp only [gapScans, List.forall_mem_cons]
  exact ⟨fun _ hi c => reportedOf_portScan_of_ne hi c, fun _ hi c => reportedOf_portScan_of_ne hi c,
    fun _ hi c => reportedOf_portScan_of_ne hi c, fun _ h => nomatch h⟩

theorem gapScans_indexed : ∀ ifMib ∈ gapScans, Indexed ifMib := by
  simp only [gapScans, List.forall_mem_cons]
  exact ⟨indexed_portScan rfl, indexed_portScan rfl, indexed_portScan rfl, fun _ h => nomatch h⟩

/-- The 100 packets from before the gap are sent as new ones after it. -/
theorem not_stats_add_up :
    ¬ ∀ (pname : String) (scans : List IfMib), (∀ ifMib ∈ scans, Indexed ifMib) →
      NonDecreasing scans → ∃ r, runScans pname ⟨Dict.empty⟩ scans = some r ∧ NonNegative r.2 ∧
        ∀ i, ∀ k ∈ stat_list, emitted r.2 i k = rise (statValues scans i k) := by
  intro h
  obtain ⟨r, hr, -, hsum⟩ := h "router" gapScans gapScans_indexed
    (nonDecreasing_of_port gapScans_other (by decide +kernel))
  have hsent : (runScans "router" ⟨Dict.empty⟩ gapScans).map
      (fun r => emitted r.2 "ge-0/0/0" "ifInPkts") = some 100 := by decide +kernel
  have hrise : rise (statValues gapScans "ge-0/0/0" "ifInPkts") = 0 := by decide +kernel
  have hin := hsum "ge-0/0/0" "ifInPkts" (by decide)
  rw [hr, Option.map_some] at hsent
  have hvalue : emitted r.2 "ge-0/0/0" "ifInPkts" = 100 := Option.some.inj hsent
  rw [hvalue, hrise] at hin
  cases hin

theorem fullScans_other : ∀ ifMib ∈ fullScans, ∀ i, i ≠ "ge-0/0/0" → ∀ c,
    reportedOf ifMib i c = none := by
  simp only [fullScans, List.forall_mem_cons]
  exact ⟨fun _ hi c => reportedOf_portScan_of_ne hi c, fun _ hi c => reportedOf_portScan_of_ne hi c,
    fun _ h => nomatch h⟩

theorem fullScans_complete : Complete fullScans := by
  intro before ifMib after hscans i rule hrule hcarries c hc hnone
  by_cases hi : i = "ge-0/0/0"
  · subst hi
    rcases before with _ | ⟨first, _ | ⟨second, before⟩⟩
    · rfl
    · -- the second scan has what the first one has
      obtain ⟨rfl, hsecond⟩ := List.cons.inj hscans
      obtain ⟨rfl, -⟩ := List.cons.inj hsecond
      have hall : (_composite_rules.all fun rule => rule.2.all fun c =>
          (reportedOf fullScans[1] "ge-0/0/0" c).isSome ||
            latest [fullScans[0]] "ge-0/0/0" c == 0) = true := by decide +kernel
      have hzero := List.all_eq_true.mp (List.all_eq_true.mp hall rule hrule) c hc
      rw [show reportedOf fullScans[1] "ge-0/0/0" c = none from hnone, Option.isSome_none,
        Bool.false_or] at hzero
      exact of_decide_eq_true hzero
    · have hlength := congrArg List.length hscans
      simp [fullScans] at hlength
  · have hmem : ifMib ∈ fullScans := by simp [hscans]
    obtain ⟨c', -, hsome⟩ := List.any_eq_true.mp hcarries
    rw [fullScans_other ifMib hmem i hi c'] at hsome
    cases hsome

theorem stats_add_up_sample :
    ((∀ ifMib ∈ fullScans, Indexed ifMib) ∧ NonDecreasing fullScans ∧ Complete fullScans) ∧
      ∃ r, runScans "router" ⟨Dict.empty⟩ fullScans = some r ∧ NonNegative r.2 ∧
        ∀ i, ∀ k ∈ stat_list, emitted r.2 i k = rise (statValues fullScans i k) :=
  have hindex : ∀ ifMib ∈ fullScans, Indexed ifMib := by
    simp only [fullScans, List.forall_mem_cons]
    exact ⟨indexed_portScan rfl, indexed_portScan rfl, fun _ h => nomatch h⟩
  have hcounters : NonDecreasing fullScans :=
    nonDecreasing_of_port fullScans_other (by decide +kernel)
  ⟨⟨hindex, hcounters, fullScans_complete⟩,
    stats_add_up "router" hindex hcounters fullScans_complete⟩

end SnmpUve

end TfAnalytics.SnmpCollector
