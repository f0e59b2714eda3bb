import TfAnalytics.Lib.OrderedMap
import TfAnalytics.Lib.Transition
import Mathlib.Data.List.Dedup
import Mathlib.Data.List.Induction
import Mathlib.Data.String.Basic

/-!
# The consistent scheduler: cleaning up before partitions are given up

`ConsistentScheduler` of `consistent_schdlr.py` on kazoo's `SetPartitioner`. The
work items of a node are those whose partition it owns; when the members change,
kazoo asks to release the set, `_release` passes the items of the partitions that
will be lost to the delete handler, and the set is allocated anew.

What is not the scheduler's is an action of its own, in any order with the calls of
`schedule`:

* `party` — members join and leave
* `revoke` — kazoo asks to release: the party has changed, or the connection was
  suspended
* `allocate` — kazoo computes the owned set with the scheduler's partitioner from the
  members there are then, and gets the locks or starts over
* `fail` — kazoo gives up

`_release` foresees what will be lost from the members there are when it runs, so it
is right about a partition only if the members at the allocation say the same of it.

Main results:

* `cleanup_iff` — between one acquired state and the next exactly the right items
  have been passed to the delete handler iff each partition with work is allocated
  again exactly when every `_release` foresaw it; while the set stays acquired nothing
  is passed, and after a `schedule` in it `work_items` are the owned items of the call.
-/

namespace TfAnalytics.OpServer.ConsistentScheduler

open TfAnalytics.Lib

-- ---------------------------------------------------------------------------
-- The partitioner
-- ---------------------------------------------------------------------------

/-- The `ConsistentHash` library. -/
structure ConsistentHash (ρ : Type) where
  make : List String → ρ
  nodes : ρ → List String
  add_nodes : ρ → List String → ρ
  del_nodes : ρ → List String → ρ
  get_node : ρ → String → Option String

section Partitioner

variable {ρ : Type} (lib : ConsistentHash ρ)

/-- `_consistent_hash`: the ring, brought up to date with the members. -/
def consistentHash (members : List String) (con_hash : Option ρ) : ρ :=
  let ring := con_hash.getD (lib.make members)
  let newm := members.dedup.filter fun m => m ∉ lib.nodes ring
  let rmvd := (lib.nodes ring).dedup.filter fun m => m ∉ members
  let ring := if newm.isEmpty then ring else lib.add_nodes ring newm
  if rmvd.isEmpty then ring else lib.del_nodes ring rmvd

/-- `_partitioner_func`, the default partitioner; its state is `_con_hash`. -/
def partitionerFunc (con_hash : Option ρ) (identifier : String) (members partitions : List String) :
    List String × Option ρ :=
  partitions.foldl (fun st p =>
    let ring := consistentHash lib members st.2
    (if lib.get_node ring p = some identifier then st.1 ++ [p] else st.1, some ring))
    ([], con_hash)

end Partitioner

-- ---------------------------------------------------------------------------
-- The scheduler and kazoo's state
-- ---------------------------------------------------------------------------

/-- What the scheduler is made with; `σ` is the state of the partitioner. -/
structure Settings (ι σ : Type) where
  name : ι → String
  /-- `str(item2part_func(name))` -/
  item2part_func : String → String
  partitioner : σ → String → List String → List String → List String × σ
  con_hash : σ
  identifier : String
  bucketsize : Nat := 47
  /-- `_MAX_WAIT_4_ALLOCATION` -/
  max_wait : Nat := 6

inductive Phase
  | allocating
  | acquired
  | release
  | failed
  /-- the process has exited or `finish` was called -/
  | stopped
  deriving DecidableEq, Repr

structure Scheduler (ι σ : Type) where
  phase : Phase
  /-- `list(self._pc)` -/
  pc : List String
  /-- `list(self._pc._party)` -/
  party : List String
  con_hash : σ
  partitions : OrderedMap String (List ι)
  wait_allocation : Nat
  /-- `schedule` is in `wait_for_acquire` -/
  waiting : Bool
  /-- what was passed to the delete handler, in order -/
  deleted : List ι
  /-- what was passed to the add handler, in order -/
  will_add : List ι

inductive Action (ι : Type)
  | party (members : List String)
  | revoke
  | allocate (locked : Bool)
  | fail
  | schedule (items : List ι)
  /-- `wait_for_acquire` returns -/
  | waited
  | finish

variable {ι σ : Type} (cfg : Settings ι σ)

/-- The partition of an item. -/
def Settings.part (i : ι) : String := cfg.item2part_func (cfg.name i)

/-- `_partition_set` -/
def Settings.partition_set : List String := (List.range cfg.bucketsize).map toString

namespace Scheduler

def init : Scheduler ι σ where
  phase := .allocating
  pc := []
  party := []
  con_hash := cfg.con_hash
  partitions := .empty
  wait_allocation := 0
  waiting := false
  deleted := []
  will_add := []

/-- The partitioner, called with the members there are. -/
def partitioned (s : Scheduler ι σ) : List String × σ :=
  cfg.partitioner s.con_hash cfg.identifier s.party cfg.partition_set

/-- `_partitions[part]`; none for a partition without an entry. -/
def itemsAt (partitions : OrderedMap String (List ι)) (part : String) : List ι :=
  (partitions.find? part).getD []

def itemsIn (s : Scheduler ι σ) (part : String) : List ι := itemsAt s.partitions part

/-- `_list_items_in` -/
def listItemsIn (s : Scheduler ι σ) (parts : List String) : List ι := parts.flatMap s.itemsIn

def work_items (s : Scheduler ι σ) : List ι := s.partitions.entries.flatMap Prod.snd

/-- `old - new` -/
def rmvd (old new : List String) : List String := old.dedup.filter fun p => p ∉ new

/-- `_release` -/
def release (s : Scheduler ι σ) : Scheduler ι σ :=
  let new := (s.partitioned cfg).1
  { s with
    phase := .allocating
    con_hash := (s.partitioned cfg).2
    deleted := s.deleted ++ s.listItemsIn (rmvd s.pc new)
    will_add := s.will_add ++ s.listItemsIn (rmvd new s.pc) }

/-- `_refresh_work_items` -/
def refresh (partitions : OrderedMap String (List ι)) : OrderedMap String (List ι) :=
  partitions.filterMapValues fun _ => some []

/-- Append the item unless its name is there. -/
def appendNew (l : List ι) (i : ι) : List ι :=
  if cfg.name i ∈ l.map cfg.name then l else l ++ [i]

/-- One item of `_populate_work_items`. -/
def populateItem (pc : List String) (partitions : OrderedMap String (List ι)) (i : ι) :
    OrderedMap String (List ι) :=
  if cfg.part i ∈ pc then
    partitions.assign (cfg.part i) (appendNew cfg (itemsAt partitions (cfg.part i)) i)
  else partitions

/-- `_populate_work_items` -/
def populate (pc : List String) (items : List ι) (partitions : OrderedMap String (List ι)) :
    OrderedMap String (List ι) :=
  items.foldl (populateItem cfg pc) (refresh partitions)

/-- `schedule`, and what it returns; the wait for the allocation ends with `waited`. -/
def schedule (s : Scheduler ι σ) (items : List ι) : Scheduler ι σ × Bool :=
  match s.phase with
  | .failed => ({ s with phase := .stopped }, false)
  | .release => (s.release cfg, false)
  | .allocating => ({ s with waiting := true }, false)
  | .acquired =>
    ({ s with
       wait_allocation := 0
       partitions := populate cfg s.pc items s.partitions }, true)
  | .stopped => (s, false)

/-- The rest of `schedule` after `wait_for_acquire`. -/
def waited (s : Scheduler ι σ) : Scheduler ι σ :=
  if s.wait_allocation < cfg.max_wait then
    { s with waiting := false, wait_allocation := s.wait_allocation + 1 }
  else { s with waiting := false, phase := .stopped }

/-- `finish` -/
def finish (s : Scheduler ι σ) : Scheduler ι σ :=
  { s with
    phase := .stopped
    deleted := s.deleted ++ s.listItemsIn (s.partitions.entries.map Prod.fst) }

/-- kazoo's allocation, with the locks or without. -/
def allocate (s : Scheduler ι σ) (locked : Bool) : Scheduler ι σ :=
  let new := s.partitioned cfg
  if locked then { s with phase := .acquired, con_hash := new.2, pc := new.1 }
  else { s with con_hash := new.2 }

def step (s : Scheduler ι σ) : Action ι → Option (Scheduler ι σ)
  | .party members => some { s with party := members }
  | .revoke =>
    if s.phase = .acquired ∨ s.phase = .allocating then some { s with phase := .release } else none
  | .allocate locked => if s.phase = .allocating then some (s.allocate cfg locked) else none
  | .fail => if s.phase = .stopped then none else some { s with phase := .failed }
  | .schedule items =>
    if s.waiting = true ∨ s.phase = .stopped then none else some (s.schedule cfg items).1
  | .waited => if s.waiting = true ∧ s.phase ≠ .stopped then some (s.waited cfg) else none
  | .finish => if s.phase = .stopped then none else some s.finish

end Scheduler

def system : System (Scheduler ι σ) (Action ι) where
  init := .init cfg
  step := Scheduler.step cfg

-- ---------------------------------------------------------------------------
-- What is claimed
-- ---------------------------------------------------------------------------

/-- The state in which the action runs `_release`, if it does. -/
def releases (s : Scheduler ι σ) : Action ι → List (Scheduler ι σ)
  | .schedule _ => if s.phase = .release then [s] else []
  | _ => []

/-- From the acquired state `s` to `t` without another acquired state; `rs` are the states
in which `_release` has run on the way. -/
inductive Handing (s : Scheduler ι σ) : List (Scheduler ι σ) → Scheduler ι σ → Prop
  | leave {a : Action ι} {t : Scheduler ι σ} (hs : s.phase = .acquired)
      (hstep : s.step cfg a = some t) (ht : t.phase ≠ .acquired) : Handing s [] t
  | step {rs : List (Scheduler ι σ)} {a : Action ι} {t t' : Scheduler ι σ} (h : Handing s rs t)
      (hstep : t.step cfg a = some t') (ht : t'.phase ≠ .acquired) :
      Handing s (rs ++ releases t a) t'

/-- From `s` without a call of `schedule`. -/
inductive Unscheduled (s : Scheduler ι σ) : Scheduler ι σ → Prop
  | refl : Unscheduled s s
  | step {a : Action ι} {t t' : Scheduler ι σ} (h : Unscheduled s t)
      (ha : ∀ items, a ≠ .schedule items) (hstep : t.step cfg a = some t') : Unscheduled s t'

/-- Between `s` and `s'` the work items of the partitions that are lost were passed to the
delete handler, and no item of a partition owned in both. -/
def CleanedUp (s s' : Scheduler ι σ) : Prop :=
  ∃ passed, s'.deleted = s.deleted ++ passed ∧
    (∀ i ∈ s.work_items, cfg.part i ∈ s.pc → cfg.part i ∉ s'.pc → i ∈ passed) ∧
    ∀ i ∈ passed, ¬ (cfg.part i ∈ s.pc ∧ cfg.part i ∈ s'.pc)

/-- A partition with work is allocated in `t` exactly when every `_release` foresaw it. -/
def Foreseen (s : Scheduler ι σ) (rs : List (Scheduler ι σ)) (t : Scheduler ι σ) : Prop :=
  ∀ part ∈ s.pc, s.itemsIn part ≠ [] →
    (part ∈ (t.partitioned cfg).1 ↔ ∀ r ∈ rs, part ∈ (r.partitioned cfg).1)

/-- `work_items` are the items of the call whose partition is owned, each name once. -/
def ListsOwned (s : Scheduler ι σ) (items : List ι) : Prop :=
  (s.work_items.map cfg.name).Nodup ∧
    (∀ i ∈ s.work_items, i ∈ items ∧ cfg.part i ∈ s.pc) ∧
    ∀ i ∈ items, cfg.part i ∈ s.pc → cfg.name i ∈ s.work_items.map cfg.name

-- ---------------------------------------------------------------------------
-- One step
-- ---------------------------------------------------------------------------

variable {cfg}

/-- A step that leaves the owned set, the items and the handlers alone and acquires nothing. -/
structure Quiet (s s' : Scheduler ι σ) : Prop where
  pc : s'.pc = s.pc
  partitions : s'.partitions = s.partitions
  deleted : s'.deleted = s.deleted
  phase : s'.phase = s.phase ∨ s'.phase = .release ∨ s'.phase = .failed ∨ s'.phase = .stopped
  stopped : s.phase = .stopped → s'.phase = .stopped

/-- What a step can do. -/
theorem step_cases {s s' : Scheduler ι σ} {a : Action ι} (h : s.step cfg a = some s') :
    (Quiet s s' ∧ releases s a = []) ∨
    (∃ items, a = .schedule items ∧ s.phase = .release ∧ s' = s.release cfg) ∨
    (∃ items, a = .schedule items ∧ s.phase = .acquired ∧ s' = (s.schedule cfg items).1) ∨
    (a = .allocate true ∧ s.phase = .allocating ∧ s' = s.allocate cfg true) ∨
    (a = .finish ∧ s' = s.finish) := by
  cases a with
  | party members =>
    injection h with h
    subst h
    exact .inl ⟨⟨rfl, rfl, rfl, .inl rfl, id⟩, rfl⟩
  | revoke =>
    obtain ⟨hp, h⟩ := Option.ite_none_right_eq_some.mp h
    injection h with h
    subst h
    refine .inl ⟨⟨rfl, rfl, rfl, .inr (.inl rfl), fun hs => ?_⟩, rfl⟩
    rw [hs] at hp
    exact absurd hp (by decide)
  | allocate locked =>
    obtain ⟨hp, h⟩ := Option.ite_none_right_eq_some.mp h
    injection h with h
    subst h
    -- only an allocation that has the lock changes what is owned
    cases locked with
    | true => exact .inr (.inr (.inr (.inl ⟨rfl, hp, rfl⟩)))
    | false => exact .inl ⟨⟨rfl, rfl, rfl, .inl rfl, id⟩, rfl⟩
  | fail =>
    obtain ⟨hp, h⟩ := Option.ite_none_left_eq_some.mp h
    injection h with h
    subst h
    exact .inl ⟨⟨rfl, rfl, rfl, .inr (.inr (.inl rfl)), fun hs => absurd hs hp⟩, rfl⟩
  | schedule items =>
    obtain ⟨hp, h⟩ := Option.ite_none_left_eq_some.mp h
    injection h with h
    subst h
    -- schedule acts on the state of the partitioner
    unfold releases Scheduler.schedule
    cases hphase : s.phase with
    | allocating =>
      refine .inl ⟨⟨rfl, rfl, rfl, .inl hphase.symm, fun hs => ?_⟩, rfl⟩
      exact absurd (hphase.symm.trans hs) (by decide)
    | acquired => exact .inr (.inr (.inl ⟨items, rfl, rfl, rfl⟩))
    | release => exact .inr (.inl ⟨items, rfl, rfl, rfl⟩)
    | failed => exact .inl ⟨⟨rfl, rfl, rfl, .inr (.inr (.inr rfl)), fun _ => rfl⟩, rfl⟩
    | stopped => exact absurd (Or.inr hphase) hp
  | waited =>
    obtain ⟨hp, h⟩ := Option.ite_none_right_eq_some.mp h
    injection h with h
    subst h
    unfold Scheduler.waited
    split
    · exact .inl ⟨⟨rfl, rfl, rfl, .inl rfl, id⟩, rfl⟩
    · exact .inl ⟨⟨rfl, rfl, rfl, .inr (.inr (.inr rfl)), fun _ => rfl⟩, rfl⟩
  | finish =>
    obtain ⟨-, h⟩ := Option.ite_none_left_eq_some.mp h
    injection h with h
    exact .inr (.inr (.inr (.inr ⟨rfl, h.symm⟩)))

/-- The set is acquired by staying so or by an allocation. -/
theorem step_acquired {s s' : Scheduler ι σ} {a : Action ι} (h : s.step cfg a = some s')
    (hs' : s'.phase = .acquired) :
    (s.phase = .acquired ∧ s'.pc = s.pc ∧ s'.deleted = s.deleted) ∨
    (s.phase = .allocating ∧ s' = s.allocate cfg true) := by
  obtain ⟨hq, -⟩ | ⟨items, -, hphase, rfl⟩ | ⟨items, -, hphase, rfl⟩ | ⟨-, hphase, rfl⟩ | ⟨-, rfl⟩ :=
    step_cases h
  · have hphase : s.phase = .acquired := by
      rcases hq.phase with hp | hp | hp | hp
      · exact hp.symm.trans hs'
      all_goals exact absurd (hp.symm.trans hs') (by decide)
    exact .inl ⟨hphase, hq.pc, hq.deleted⟩
  · exact absurd hs' nofun
  · refine .inl ⟨hphase, ?_⟩
    unfold Scheduler.schedule
    rw [hphase]
    exact ⟨rfl, rfl⟩
  · exact .inr ⟨hphase, rfl⟩
  · exact absurd hs' nofun

-- ---------------------------------------------------------------------------
-- The items of a partition
-- ---------------------------------------------------------------------------

theorem mem_work_items {s : Scheduler ι σ} {i : ι} :
    i ∈ s.work_items ↔ ∃ part, i ∈ s.itemsIn part := by
  unfold Scheduler.work_items Scheduler.itemsIn Scheduler.itemsAt
  rw [List.mem_flatMap]
  constructor
  · rintro ⟨⟨part, l⟩, hmem, hi⟩
    refine ⟨part, ?_⟩
    rw [OrderedMap.mem_entries.mp hmem]
    exact hi
  · rintro ⟨part, hi⟩
    cases hfind : s.partitions.find? part with
    | none => rw [hfind] at hi; exact absurd hi (by simp)
    | some l =>
      rw [hfind] at hi
      exact ⟨(part, l), OrderedMap.mem_entries.mpr hfind, hi⟩

theorem itemsAt_refresh (m : OrderedMap String (List ι)) (part : String) :
    Scheduler.itemsAt (Scheduler.refresh m) part = [] := by
  unfold Scheduler.itemsAt Scheduler.refresh
  rw [OrderedMap.find?_filterMapValues]
  cases m.find? part <;> rfl

theorem itemsAt_populateItem {pc : List String} {m : OrderedMap String (List ι)} {i : ι}
    (part : String) :
    Scheduler.itemsAt (Scheduler.populateItem cfg pc m i) part =
      if cfg.part i ∈ pc ∧ part = cfg.part i
      then Scheduler.appendNew cfg (Scheduler.itemsAt m part) i else Scheduler.itemsAt m part := by
  unfold Scheduler.populateItem
  by_cases hpc : cfg.part i ∈ pc
  · rw [if_pos hpc]
    unfold Scheduler.itemsAt
    rw [OrderedMap.find?_assign]
    by_cases hpart : part = cfg.part i
    · rw [if_pos hpart, if_pos ⟨hpc, hpart⟩, hpart]
      rfl
    · rw [if_neg hpart, if_neg fun h => hpart h.2]
  · rw [if_neg hpc, if_neg fun h => hpc h.1]

theorem mem_appendNew {l : List ι} {i j : ι} (h : j ∈ Scheduler.appendNew cfg l i) :
    j ∈ l ∨ j = i := by
  unfold Scheduler.appendNew at h
  split at h
  · exact .inl h
  · simpa using h

theorem name_mem_appendNew {l : List ι} {i : ι} {n : String}
    (h : n ∈ l.map cfg.name ∨ n = cfg.name i) :
    n ∈ (Scheduler.appendNew cfg l i).map cfg.name := by
  unfold Scheduler.appendNew
  split
  · rename_i hthere
    rcases h with h | rfl
    · exact h
    · exact hthere
  · simpa [or_comm] using h

theorem nodup_appendNew {l : List ι} (h : (l.map cfg.name).Nodup) (i : ι) :
    ((Scheduler.appendNew cfg l i).map cfg.name).Nodup := by
  unfold Scheduler.appendNew
  split
  · exact h
  · rename_i hnew
    rw [List.map_append, List.map_singleton]
    exact List.nodup_append_comm.mp (List.nodup_cons.mpr ⟨hnew, h⟩)

/-- The items that `_populate_work_items` has gone through are in their partitions, as far
as these are owned, each name once. -/
structure Populated (cfg : Settings ι σ) (pc : List String) (items : List ι)
    (m : OrderedMap String (List ι)) : Prop where
  mem : ∀ part, ∀ i ∈ Scheduler.itemsAt m part, i ∈ items ∧ cfg.part i = part ∧ part ∈ pc
  nodup : ∀ part, ((Scheduler.itemsAt m part).map cfg.name).Nodup
  all : ∀ i ∈ items, cfg.part i ∈ pc →
    cfg.name i ∈ (Scheduler.itemsAt m (cfg.part i)).map cfg.name

theorem populated_refresh (cfg : Settings ι σ) (pc : List String)
    (m : OrderedMap String (List ι)) : Populated cfg pc [] (Scheduler.refresh m) := by
  refine ⟨?_, ?_, nofun⟩
  · intro part i hi
    rw [itemsAt_refresh] at hi
    exact absurd hi (by simp)
  · intro part
    rw [itemsAt_refresh]
    exact List.nodup_nil

theorem populated_snoc {pc : List String} {items : List ι} {m : OrderedMap String (List ι)}
    (h : Populated cfg pc items m) (i : ι) :
    Populated cfg pc (items ++ [i]) (Scheduler.populateItem cfg pc m i) := by
  refine ⟨?_, ?_, ?_⟩
  · intro part j hj
    rw [itemsAt_populateItem] at hj
    have hcases : j ∈ Scheduler.itemsAt m part ∨ (j = i ∧ cfg.part i ∈ pc ∧ part = cfg.part i) := by
      split at hj
      · rename_i hpart
        exact (mem_appendNew hj).imp id fun hji => ⟨hji, hpart⟩
      · exact .inl hj
    rcases hcases with hj | ⟨rfl, hpc, rfl⟩
    · obtain ⟨hmem, hrest⟩ := h.mem part j hj
      exact ⟨List.mem_append_left _ hmem, hrest⟩
    · exact ⟨by simp, rfl, hpc⟩
  · intro part
    rw [itemsAt_populateItem]
    split
    · exact nodup_appendNew (h.nodup part) i
    · exact h.nodup part
  · intro j hj hjpc
    rw [itemsAt_populateItem]
    rcases List.mem_append.mp hj with hj | hj
    · split
      · exact name_mem_appendNew (.inl (h.all j hj hjpc))
      · exact h.all j hj hjpc
    · obtain rfl := List.mem_singleton.mp hj
      rw [if_pos ⟨hjpc, rfl⟩]
      exact name_mem_appendNew (.inr rfl)

theorem populated_populate (cfg : Settings ι σ) (pc : List String) (items : List ι)
    (m : OrderedMap String (List ι)) :
    Populated cfg pc items (Scheduler.populate cfg pc items m) := by
  unfold Scheduler.populate
  induction items using List.reverseRecOn with
  | nil => exact populated_refresh cfg pc m
  | append_singleton items i ih =>
    rw [List.foldl_append]
    exact populated_snoc ih i

/-- Populated partitions give the claimed list: names of different partitions differ, since
the partition is a function of the name. -/
theorem listsOwned_of_populated {s : Scheduler ι σ} {items : List ι}
    (h : Populated cfg s.pc items s.partitions) : ListsOwned cfg s items := by
  refine ⟨?_, ?_, ?_⟩
  · have hitems : ∀ e ∈ s.partitions.entries, e.2 = Scheduler.itemsAt s.partitions e.1 := by
      intro e he
      unfold Scheduler.itemsAt
      rw [OrderedMap.mem_entries.mp he]
      rfl
    unfold Scheduler.work_items
    rw [List.map_flatMap, List.nodup_flatMap]
    refine ⟨fun e he => hitems e he ▸ h.nodup e.1, ?_⟩
    refine s.partitions.sorted.imp_of_mem fun {e e'} he he' hlt => ?_
    intro n hn hn'
    obtain ⟨i, hi, rfl⟩ := List.mem_map.mp hn
    obtain ⟨j, hj, hji⟩ := List.mem_map.mp hn'
    have hie : cfg.part i = e.1 := (h.mem e.1 i (hitems e he ▸ hi)).2.1
    have hje : cfg.part j = e'.1 := (h.mem e'.1 j (hitems e' he' ▸ hj)).2.1
    have hsame : cfg.part j = cfg.part i := congrArg cfg.item2part_func hji
    exact absurd (hie.symm.trans (hsame.symm.trans hje)) (ne_of_lt hlt)
  · intro i hi
    obtain ⟨part, hpart⟩ := mem_work_items.mp hi
    obtain ⟨hmem, rfl, hpc⟩ := h.mem part i hpart
    exact ⟨hmem, hpc⟩
  · intro i hi hpc
    obtain ⟨j, hj, hname⟩ := List.mem_map.mp (h.all i hi hpc)
    exact List.mem_map.mpr ⟨j, mem_work_items.mpr ⟨_, hj⟩, hname⟩

-- ---------------------------------------------------------------------------
-- Runs
-- ---------------------------------------------------------------------------

/-- Every item is in the list of its partition. -/
def Placed (cfg : Settings ι σ) (s : Scheduler ι σ) : Prop :=
  ∀ part, ∀ i ∈ s.itemsIn part, cfg.part i = part

theorem placed_step {s s' : Scheduler ι σ} {a : Action ι} (h : s.step cfg a = some s')
    (hs : Placed cfg s) : Placed cfg s' := by
  obtain ⟨hq, -⟩ | ⟨items, -, -, rfl⟩ | ⟨items, -, hphase, rfl⟩ | ⟨-, -, rfl⟩ | ⟨-, rfl⟩ :=
    step_cases h
  · intro part i hi
    unfold Scheduler.itemsIn at hi
    rw [hq.partitions] at hi
    exact hs part i hi
  · exact hs
  · intro part i hi
    unfold Scheduler.schedule at hi
    rw [hphase] at hi
    exact ((populated_populate cfg s.pc items s.partitions).mem part i hi).2.1
  · exact hs
  · exact hs

theorem placed_of_reachable {s : Scheduler ι σ} (h : (system cfg).Reachable s) :
    Placed cfg s :=
  h.invariant (P := Placed cfg) (fun _ _ hi => absurd hi (by simp [Scheduler.itemsIn,
    Scheduler.itemsAt, system, Scheduler.init])) fun _ _ _ hs hstep => placed_step hstep hs

/-- Until a `schedule` the items stay those of the last one, and the set those partitions
were owned in. -/
theorem unscheduled_keeps {s u : Scheduler ι σ} (h : Unscheduled cfg s u)
    (hs : s.phase ≠ .allocating) :
    u.phase ≠ .allocating ∧ u.pc = s.pc ∧ u.partitions = s.partitions := by
  induction h with
  | refl => exact ⟨hs, rfl, rfl⟩
  | step _ ha hstep ih =>
    obtain ⟨hphase, hpc, hparts⟩ := ih
    obtain ⟨hq, -⟩ | ⟨items, hsched, -, -⟩ | ⟨items, hsched, -, -⟩ | ⟨-, halloc, -⟩ | ⟨-, rfl⟩ :=
      step_cases hstep
    · refine ⟨?_, hq.pc.trans hpc, hq.partitions.trans hparts⟩
      rcases hq.phase with hp | hp | hp | hp
      · exact hp ▸ hphase
      all_goals exact hp ▸ nofun
    · exact absurd hsched (ha items)
    · exact absurd hsched (ha items)
    · exact absurd halloc hphase
    · exact ⟨nofun, hpc, hparts⟩

theorem listsOwned_after {s s' u : Scheduler ι σ} {items : List ι} (hs : s.phase = .acquired)
    (hstep : s.step cfg (.schedule items) = some s') (hu : Unscheduled cfg s' u) :
    ListsOwned cfg u items := by
  obtain ⟨-, h⟩ := Option.ite_none_left_eq_some.mp hstep
  injection h with h
  unfold Scheduler.schedule at h
  rw [hs] at h
  subst h
  obtain ⟨-, hpc, hparts⟩ := unscheduled_keeps hu (by simp)
  apply listsOwned_of_populated
  rw [hpc, hparts]
  exact populated_populate cfg s.pc items s.partitions

-- ---------------------------------------------------------------------------
-- From one acquired state to the next
-- ---------------------------------------------------------------------------

/-- What the `_release`s in the states `rs` have passed to the delete handler. -/
def passed (cfg : Settings ι σ) (s : Scheduler ι σ) (rs : List (Scheduler ι σ)) : List ι :=
  rs.flatMap fun r => s.listItemsIn (Scheduler.rmvd s.pc (r.partitioned cfg).1)

theorem mem_passed {s : Scheduler ι σ} {rs : List (Scheduler ι σ)} {i : ι} (hs : Placed cfg s) :
    i ∈ passed cfg s rs ↔ i ∈ s.itemsIn (cfg.part i) ∧ cfg.part i ∈ s.pc ∧
      ∃ r ∈ rs, cfg.part i ∉ (r.partitioned cfg).1 := by
  unfold passed Scheduler.listItemsIn Scheduler.rmvd
  simp only [List.mem_flatMap, List.mem_filter, List.mem_dedup, decide_eq_true_eq]
  constructor
  · rintro ⟨r, hr, part, ⟨hpc, hlost⟩, hi⟩
    obtain rfl := hs part i hi
    exact ⟨hi, hpc, r, hr, hlost⟩
  · rintro ⟨hi, hpc, r, hr, hlost⟩
    exact ⟨r, hr, cfg.part i, ⟨hpc, hlost⟩, hi⟩

/-- On the way the owned set and the items stay, and what is passed to the delete handler
is what the `_release`s pass. -/
theorem handing_keeps {s t : Scheduler ι σ} {rs : List (Scheduler ι σ)}
    (h : Handing cfg s rs t) :
    t.pc = s.pc ∧ t.partitions = s.partitions ∧
      (t.phase ≠ .stopped → t.deleted = s.deleted ++ passed cfg s rs) ∧ t.phase ≠ .acquired := by
  induction h with
  | leave hs hstep ht =>
    obtain ⟨hq, -⟩ | ⟨items, -, hphase, -⟩ | ⟨items, -, -, rfl⟩ | ⟨-, hphase, -⟩ | ⟨-, rfl⟩ :=
      step_cases hstep
    · exact ⟨hq.pc, hq.partitions, fun _ => by rw [hq.deleted]; simp [passed], ht⟩
    · exact absurd (hs.symm.trans hphase) (by decide)
    · refine absurd ?_ ht
      unfold Scheduler.schedule
      rw [hs]
    · exact absurd (hs.symm.trans hphase) (by decide)
    · exact ⟨rfl, rfl, fun hstop => absurd rfl hstop, ht⟩
  | @step rs a t t' h hstep ht ih =>
    obtain ⟨hpc, hparts, hdel, hunacq⟩ := ih
    obtain ⟨hq, hrel⟩ | ⟨items, rfl, hphase, rfl⟩ | ⟨items, -, hphase, -⟩ | ⟨-, -, rfl⟩ |
      ⟨-, rfl⟩ := step_cases hstep
    · rw [hrel, List.append_nil]
      refine ⟨hq.pc.trans hpc, hq.partitions.trans hparts, fun hstop => ?_, ht⟩
      rw [hq.deleted]
      exact hdel fun hstopped => hstop (hq.stopped hstopped)
    · refine ⟨hpc, hparts, fun _ => ?_, ht⟩
      have hlive : t.phase ≠ .stopped := hphase ▸ nofun
      have hreleases : releases t (.schedule items) = [t] := if_pos hphase
      have hitems : t.listItemsIn (Scheduler.rmvd t.pc (t.partitioned cfg).1) =
          s.listItemsIn (Scheduler.rmvd s.pc (t.partitioned cfg).1) := by
        unfold Scheduler.listItemsIn Scheduler.itemsIn
        rw [hpc, hparts]
      have hdeleted : (t.release cfg).deleted =
          t.deleted ++ t.listItemsIn (Scheduler.rmvd t.pc (t.partitioned cfg).1) := rfl
      rw [hdeleted, hdel hlive, hitems, hreleases, List.append_assoc]
      simp [passed]
    · exact absurd hphase hunacq
    · exact absurd rfl ht
    · exact ⟨hpc, hparts, fun hstop => absurd rfl hstop, ht⟩

/-- Where the way ends in an acquired state, that is by an allocation. -/
theorem handing_acquires {s t s' : Scheduler ι σ} {rs : List (Scheduler ι σ)} {a : Action ι}
    (h : Handing cfg s rs t) (hstep : t.step cfg a = some s') (hs' : s'.phase = .acquired) :
    s'.pc = (t.partitioned cfg).1 ∧ s'.deleted = s.deleted ++ passed cfg s rs := by
  obtain ⟨-, -, hdel, hunacq⟩ := handing_keeps h
  rcases step_acquired hstep hs' with ⟨hacq, -⟩ | ⟨hphase, rfl⟩
  · exact absurd hacq hunacq
  · exact ⟨rfl, hdel (hphase ▸ nofun)⟩

theorem cleanedUp_iff_foreseen {s t s' : Scheduler ι σ} {rs : List (Scheduler ι σ)} {a : Action ι}
    (hs : Placed cfg s) (h : Handing cfg s rs t) (hstep : t.step cfg a = some s')
    (hs' : s'.phase = .acquired) : CleanedUp cfg s s' ↔ Foreseen cfg s rs t := by
  obtain ⟨hpc, hdeleted⟩ := handing_acquires h hstep hs'
  unfold CleanedUp Foreseen
  rw [hpc]
  constructor
  · rintro ⟨passed', hpassed, hlost, hkept⟩ part hpart hwork
    obtain rfl : passed' = passed cfg s rs := List.append_cancel_left (hpassed.symm.trans hdeleted)
    obtain ⟨i, hi⟩ := List.exists_mem_of_ne_nil _ hwork
    obtain rfl := hs part i hi
    constructor
    · intro hown r hr
      by_contra hunforeseen
      exact hkept i ((mem_passed hs).mpr ⟨hi, hpart, r, hr, hunforeseen⟩) ⟨hpart, hown⟩
    · intro hforeseen
      by_contra hnot
      obtain ⟨-, -, r, hr, hgone⟩ :=
        (mem_passed hs).mp (hlost i (mem_work_items.mpr ⟨_, hi⟩) hpart hnot)
      exact hgone (hforeseen r hr)
  · intro hforeseen
    refine ⟨passed cfg s rs, hdeleted, ?_, ?_⟩
    · intro i hi hpart hnot
      obtain ⟨part, hipart⟩ := mem_work_items.mp hi
      obtain rfl := hs part i hipart
      have hiff := hforeseen _ hpart (List.ne_nil_of_mem hipart)
      obtain ⟨r, hr⟩ := not_forall.mp fun hall => hnot (hiff.mpr hall)
      obtain ⟨hr, hgone⟩ := Classical.not_imp.mp hr
      exact (mem_passed hs).mpr ⟨hipart, hpart, r, hr, hgone⟩
    · rintro i hi ⟨hpart, hown⟩
      obtain ⟨hipart, -, r, hr, hgone⟩ := (mem_passed hs).mp hi
      exact hgone ((hforeseen _ hpart (List.ne_nil_of_mem hipart)).mp hown r hr)

/-- From any acquired state: while the set stays acquired nothing is passed to the delete
handler; at the next acquisition the lost partitions were cleaned up, and no kept one,
exactly when each partition with work is allocated as every `_release` foresaw; and from
a `schedule` to the next `work_items` are the items of the call that are owned. -/
theorem cleanup_iff {s : Scheduler ι σ} (hreach : (system cfg).Reachable s)
    (hs : s.phase = .acquired) :
    (∀ a s', s.step cfg a = some s' → s'.phase = .acquired → CleanedUp cfg s s') ∧
    (∀ rs t a s', Handing cfg s rs t → t.step cfg a = some s' → s'.phase = .acquired →
      (CleanedUp cfg s s' ↔ Foreseen cfg s rs t)) ∧
    (∀ items s' u, s.step cfg (.schedule items) = some s' → Unscheduled cfg s' u →
      ListsOwned cfg u items) := by
  refine ⟨?_, ?_, ?_⟩
  · intro a s' hstep hs'
    rcases step_acquired hstep hs' with ⟨-, hpc, hdeleted⟩ | ⟨halloc, -⟩
    · refine ⟨[], by rw [hdeleted, List.append_nil], ?_, nofun⟩
      intro i _ hpart hnot
      exact absurd (hpc ▸ hpart) hnot
    · exact absurd (hs.symm.trans halloc) (by decide)
  · intro rs t a s' h hstep hs'
    exact cleanedUp_iff_foreseen (placed_of_reachable hreach) h hstep hs'
  · intro items s' u hstep hu
    exact listsOwned_after hs hstep hu

/-- A ring that gives the first partition to its first node and the others to its last. -/
def sampleRing : ConsistentHash (List String) where
  make := id
  nodes := id
  add_nodes ring l := ring ++ l
  del_nodes ring l := ring.filter fun m => m ∉ l
  get_node ring p := if p = "0" then ring.head? else ring.getLast?

/-- The node `n1` with two partitions and the default partitioner. -/
def sampleNode : Settings String (Option (List String)) where
  name := id
  item2part_func n := if n = "p1" then "0" else "1"
  partitioner := partitionerFunc sampleRing
  con_hash := none
  identifier := "n1"
  bucketsize := 2

abbrev Node := Scheduler String (Option (List String))

/-- Alone, with both partitions and an item in each. -/
def alone : Node :=
  ((Scheduler.allocate sampleNode { Scheduler.init sampleNode with party := ["n1"] } true).schedule
    sampleNode ["p1", "p2"]).1

/-- `n2` has joined, kazoo has not yet asked to release. -/
def joined : Node := { alone with party := ["n1", "n2"] }

theorem joined_reachable : (system sampleNode).Reachable joined := by
  have hrun : (system sampleNode).run
      [.party ["n1"], .allocate true, .schedule ["p1", "p2"], .party ["n1", "n2"]] =
      some joined := rfl
  exact System.reachable_of_run hrun

/-- Asked to release, with these members. -/
def released (members : List String) : Node :=
  { joined with phase := .release, party := members }

/-- After `_release`, with other members. -/
def reallocating (members members' : List String) : Node :=
  { (released members).release sampleNode with party := members' }

theorem handing_reallocating (members members' : List String) :
    Handing sampleNode joined [released members] (reallocating members members') := by
  have hleave : Handing sampleNode joined [] { joined with phase := .release } :=
    .leave (a := .revoke) rfl rfl nofun
  have hparty : Handing sampleNode joined [] (released members) :=
    hleave.step (a := .party members) rfl nofun
  have hrelease : Handing sampleNode joined [released members]
      ((released members).release sampleNode) :=
    hparty.step (a := .schedule []) rfl nofun
  exact hrelease.step (a := .party members') rfl nofun

/-- `n2` stays: its partition is cleaned up. -/
theorem cleanup_iff_sample :
    CleanedUp sampleNode joined
      ((reallocating ["n1", "n2"] ["n1", "n2"]).allocate sampleNode true) := by
  refine ((cleanup_iff joined_reachable rfl).2.1 _ _ (.allocate true) _
    (handing_reallocating ["n1", "n2"] ["n1", "n2"]) rfl rfl).mpr ?_
  unfold Foreseen
  decide

/-- `n2` is gone when `_release` runs and back for the allocation: its partition is lost,
and the item in it was not passed to the delete handler. -/
theorem restarted_member_not_cleaned_up :
    (system sampleNode).Reachable joined ∧ joined.phase = .acquired ∧
      Handing sampleNode joined [released ["n1"]] (reallocating ["n1"] ["n1", "n2"]) ∧
      (reallocating ["n1"] ["n1", "n2"]).step sampleNode (.allocate true) =
        some ((reallocating ["n1"] ["n1", "n2"]).allocate sampleNode true) ∧
      ¬ CleanedUp sampleNode joined
        ((reallocating ["n1"] ["n1", "n2"]).allocate sampleNode true) := by
  refine ⟨joined_reachable, rfl, handing_reallocating _ _, rfl, ?_⟩
  rintro ⟨passed, hpassed, hlost, -⟩
  have hnone : ((reallocating ["n1"] ["n1", "n2"]).allocate sampleNode true).deleted =
      joined.deleted := by decide
  have hempty : passed = [] := by
    rw [hnone] at hpassed
    exact List.self_eq_append_right.mp hpassed
  have hp2 : "p2" ∈ passed := hlost "p2" (by decide) (by decide) (by decide)
  rw [hempty] at hp2
  exact absurd hp2 (by simp)

end TfAnalytics.OpServer.ConsistentScheduler
