import TfAnalytics.OpServer.UveCacheProcessor

/-!
# Analytics API — the life cycle of a UVE stream

`UveStreamer._run` (partition_handler.py) looks up the partition map again and again and
starts, stops and restarts a part for each partition; what the parts report goes to the
stream and to the cache. When it stops it stops all parts.

Killing a part lets the other greenlets run, so that parts report at any time between
the single steps of a round. A round is therefore a list of steps that is worked off,
and the order in which Python goes through a set is left open.

`GreenletExit` arrives where the streamer waits: for the next round, or in a round for a
part that it kills. The rest of the round is then left out, with the part and the
partition map as they were.

The loop that stops the parts clears the partition `elem`, which is still that of the
loops before, and not `part`.

* `plan_round`: a round leads from the old partition map to the new one;
* `streamerInv_step`: every step keeps the invariant;
* `streamer_life_cycle`: what runs and what is held after each round, and that nothing is
  reported any more when the streamer has stopped.
-/

namespace TfAnalytics.OpServer

open TfAnalytics.Lib

variable {J : Type}

-- ---------------------------------------------------------------------------
-- The streamer
-- ---------------------------------------------------------------------------

/-- A part that runs, and what it has reported since it was started. -/
structure StreamerPart (J : Type) where
  pi : PartInfo
  received : List (StreamCall J)

/-- A step of `_run`. -/
inductive StreamerTask where
  /-- `elem` is the next one of a loop -/
  | next (elem : Nat)
  | partition_stop (partno : Nat)
  | clear_partition (partno : Nat)
  | partition_start (partno : Nat) (pi : PartInfo)
  /-- `clear_partition(elem)` when the streamer stops -/
  | clear_elem
  | set_agp (agp : OrderedMap Nat PartInfo)
  deriving DecidableEq

/-- `messages` are the updates that were put to the stream. -/
structure UveStreamer (J : Type) where
  _agp : OrderedMap Nat PartInfo
  _parts : OrderedMap Nat (StreamerPart J)
  _uvedbcache : UveCacheProcessor J
  messages : List (StreamCall J)
  elem : Option Nat
  todo : List StreamerTask
  stopping : Bool

inductive StreamerEvent (J : Type) where
  /-- the partition map has changed, or not; the orders of the three sets -/
  | round (newagp : OrderedMap Nat PartInfo) (deleted : List Nat) (new both : List (Nat × PartInfo))
  | work
  | partition_callback (partno : Nat) (call : StreamCall J)
  | stop

/-- The elements of a loop over a set, in some order. -/
def deletedParts (agp newagp : OrderedMap Nat PartInfo) : List Nat :=
  (agp.entries.filter fun e => (newagp.find? e.1).isNone).map Prod.fst

def newParts (agp newagp : OrderedMap Nat PartInfo) : List (Nat × PartInfo) :=
  newagp.entries.filter fun e => (agp.find? e.1).isNone

def intersectParts (agp newagp : OrderedMap Nat PartInfo) : List (Nat × PartInfo) :=
  newagp.entries.filter fun e => (agp.find? e.1).isSome

/-- The steps of a round. -/
def roundTasks (agp newagp : OrderedMap Nat PartInfo) (deleted : List Nat)
    (new both : List (Nat × PartInfo)) : List StreamerTask :=
  deleted.flatMap (fun p => [.next p, .partition_stop p, .clear_partition p]) ++
  new.flatMap (fun e => [.next e.1, .clear_partition e.1, .partition_start e.1 e.2]) ++
  both.flatMap (fun e => .next e.1 ::
    if agp.find? e.1 ≠ some e.2 then
      [.partition_stop e.1, .clear_partition e.1, .partition_start e.1 e.2]
    else []) ++
  [.set_agp newagp]

/-- Where the streamer waits, with these steps ahead. -/
def waits : List StreamerTask → Bool
  | [] => true
  | .partition_stop _ :: _ => true
  | _ => false

/-- The steps after the loop. -/
def stopTasks (agp : OrderedMap Nat PartInfo) : List StreamerTask :=
  agp.entries.flatMap fun e => [.partition_stop e.1, .clear_elem]

namespace UveStreamer

-- `q` says whether there is a stream; the cache keeps no values then.
variable (q : Bool) (emptyDict : J) (s : UveStreamer J)

def clear (partno : Nat) : Option (UveStreamer J) :=
  (s._uvedbcache.clear_partition partno).map fun cleared =>
    { s with
      _uvedbcache := cleared.1
      messages := if q then s.messages ++ cleared.2.map fun key => ⟨key, none, none⟩ else s.messages }

def doTask : StreamerTask → Option (UveStreamer J)
  | .next elem => some { s with elem := some elem }
  | .partition_stop partno =>
    if (s._parts.find? partno).isSome then some { s with _parts := s._parts.erase partno } else none
  | .clear_partition partno => s.clear q partno
  | .partition_start partno pi => some { s with _parts := s._parts.assign partno ⟨pi, []⟩ }
  | .clear_elem =>
    match s.elem with
    | none => none
    | some elem => s.clear q elem
  | .set_agp agp => some { s with _agp := agp }

def partition_callback (partno : Nat) (part : StreamerPart J) (call : StreamCall J) :
    Option (UveStreamer J) :=
  let value := if q then call.value.map fun _ => emptyDict else call.value
  (s._uvedbcache.store_uve partno part.pi call.key call.typ value).map fun cache =>
    { s with
      _parts := s._parts.assign partno { part with received := part.received ++ [call] }
      _uvedbcache := cache
      messages :=
        if q then s.messages ++ [⟨call.key, call.typ, call.typ.bind fun _ => call.value⟩]
        else s.messages }

/-- `none`: the event cannot happen, or it raises an exception. -/
def step : StreamerEvent J → Option (UveStreamer J)
  | .round newagp deleted new both =>
    if s.todo = [] ∧ s.stopping = false ∧ deleted.Perm (deletedParts s._agp newagp) ∧
        new.Perm (newParts s._agp newagp) ∧ both.Perm (intersectParts s._agp newagp) then
      some { s with todo := roundTasks s._agp newagp deleted new both }
    else none
  | .work =>
    match s.todo with
    | [] => none
    | task :: todo => { s with todo }.doTask q task
  | .partition_callback partno call =>
    match s._parts.find? partno with
    | none => none
    | some part => s.partition_callback q emptyDict partno part call
  | .stop =>
    if waits s.todo = true ∧ s.stopping = false then
      some { s with todo := stopTasks s._agp, stopping := true }
    else none

end UveStreamer

def streamerSystem (q : Bool) (emptyDict : J) : System (UveStreamer J) (StreamerEvent J) where
  init := ⟨.empty, .empty, .empty, [], none, [], false⟩
  step := UveStreamer.step q emptyDict

-- ---------------------------------------------------------------------------
-- What calls report
-- ---------------------------------------------------------------------------

/-- What a call says of a UVE. -/
def callHeld (key : String) (old : Option (String → Bool)) (call : StreamCall J) :
    Option (String → Bool) :=
  if call.key = key then heldAfter old call.typ call.value else old

/-- The types of a UVE that calls have reported and not withdrawn, if the UVE was not. -/
def uveOf (calls : List (StreamCall J)) (key : String) : Option (String → Bool) :=
  calls.foldl (callHeld key) none

/-- A part reports UVEs of its partition, with keys table:name. -/
def ReportsOwn (part : String → Nat) : StreamerEvent J → Prop
  | .partition_callback partno call => part call.key = partno ∧ (splitKey call.key).isSome = true
  | _ => True

/-- When the streamer stops, the parts of the map run and no others (a round has stopped
or started none before), and only the partition that the loops were at last has UVEs. -/
def StopsAtElem (s : UveStreamer J) : StreamerEvent J → Prop
  | .stop => (∀ p, (s._parts.find? p).isSome = (s._agp.find? p).isSome) ∧
    ∀ p, s.elem ≠ some p → s._uvedbcache.partKeys p = []
  | .partition_callback p call => s.stopping = true → s.elem ≠ some p → call.typ = none
  | _ => True

-- ---------------------------------------------------------------------------
-- Calls
-- ---------------------------------------------------------------------------

theorem uveOf_append (calls : List (StreamCall J)) (call : StreamCall J) (key : String) :
    uveOf (calls ++ [call]) key = callHeld key (uveOf calls key) call := by
  unfold uveOf
  rw [List.foldl_append, List.foldl_cons, List.foldl_nil]

/-- A call without a type withdraws the UVE. -/
theorem uveOf_withdraw (keys : List String) (calls : List (StreamCall J)) (key : String) :
    uveOf (calls ++ keys.map fun key => ⟨key, none, none⟩) key =
      if key ∈ keys then none else uveOf calls key := by
  induction keys generalizing calls with
  | nil => simp
  | cons k keys ih =>
    rw [List.map_cons, List.append_cons, ih, uveOf_append]
    by_cases hmem : key ∈ keys
    · simp [hmem]
    · by_cases hk : k = key
      · simp [hk, callHeld, heldAfter]
      · simp [hmem, hk, Ne.symm hk, callHeld]

theorem partKeys_eq_nil_iff {part : String → Nat} {c : UveCacheProcessor J} (h : CacheInv part c)
    (p : Nat) : c.partKeys p = [] ↔ ∀ key, part key = p → c.held key = none := by
  refine ⟨fun hnil key hown => ?_, fun hnone => ?_⟩
  · cases hsplit : splitKey key with
    | none => simp [UveCacheProcessor.held, hsplit]
    | some split =>
      have hmem := h.keys key (by rw [hsplit]; rfl)
      rw [hown, hnil] at hmem
      rw [← Option.not_isSome_iff_eq_none]
      exact mt hmem.mpr List.not_mem_nil
  · refine List.eq_nil_iff_forall_not_mem.mpr fun key hkey => ?_
    obtain ⟨hown, hsplit⟩ := h.owner p key hkey
    have hheld := (h.keys key hsplit).mp (hown ▸ hkey)
    rw [hnone key hown] at hheld
    cases hheld

-- ---------------------------------------------------------------------------
-- The cache and the stream
-- ---------------------------------------------------------------------------

/-- The stream, if there is one, reports what the cache holds. -/
structure StreamInv (part : String → Nat) (q : Bool) (s : UveStreamer J) : Prop where
  cache : CacheInv part s._uvedbcache
  stream : ∀ key, uveOf s.messages key = if q then s._uvedbcache.held key else none

section Operations

variable {part : String → Nat} {q : Bool} {s : UveStreamer J} (h : StreamInv part q s)
include h

/-- A partition is cleared, in the cache and on the stream. -/
theorem clear_spec (p : Nat) :
    ∃ cache messages, s.clear q p = some { s with _uvedbcache := cache, messages } ∧
      StreamInv part q { s with _uvedbcache := cache, messages } ∧
      (∀ key, cache.held key = if part key = p then none else s._uvedbcache.held key) ∧
      ∀ t b uve, cache.uve t b = some uve → s._uvedbcache.uve t b = some uve := by
  obtain ⟨cache, hclear, hcache, -, hheld, huves⟩ := cacheInv_clear h.cache p
  refine ⟨cache, _, by rw [UveStreamer.clear, hclear]; rfl, ⟨hcache, fun key => ?_⟩, hheld, huves⟩
  simp only []
  cases q with
  | false => exact h.stream key
  | true =>
    rw [if_pos rfl, if_pos rfl, uveOf_withdraw, hheld, h.stream key, if_pos rfl]
    by_cases hown : part key = p
    · rw [if_pos hown]
      split
      · rfl
      · rename_i hnot
        have hnone : ¬ (s._uvedbcache.held key).isSome = true := by
          intro hsome
          cases hsplit : splitKey key with
          | none =>
            rw [UveCacheProcessor.held, hsplit] at hsome
            cases hsome
          | some split =>
            exact hnot (hown ▸ (h.cache.keys key (by rw [hsplit]; rfl)).mpr hsome)
        exact Option.not_isSome_iff_eq_none.mp hnone
    · rw [if_neg hown, if_neg]
      exact fun hmem => hown (h.cache.owner p key hmem).1

/-- A part reports a UVE of its partition. -/
theorem callback_spec (emptyDict : J) (part' : StreamerPart J) {call : StreamCall J}
    (hsplit : (splitKey call.key).isSome = true) :
    ∃ cache messages, s.partition_callback q emptyDict (part call.key) part' call =
        some { s with
          _parts := s._parts.assign (part call.key) { part' with received := part'.received ++ [call] }
          _uvedbcache := cache
          messages } ∧
      StreamInv part q { s with
        _parts := s._parts.assign (part call.key) { part' with received := part'.received ++ [call] }
        _uvedbcache := cache
        messages } ∧
      (∀ key, cache.held key = callHeld key (s._uvedbcache.held key) call) ∧
      ∀ t b uve, cache.uve t b = some uve → s._uvedbcache.uve t b = some uve ∨
        (t ++ ":" ++ b = call.key ∧ uve.source = part'.pi.source (part call.key)) := by
  obtain ⟨cache, hstore, hcache, hheld, huves⟩ := cacheInv_store h.cache hsplit part'.pi call.typ
    (if q then call.value.map fun _ => emptyDict else call.value)
  have hheld' : ∀ key, cache.held key = callHeld key (s._uvedbcache.held key) call := by
    intro key
    rw [hheld, callHeld]
    by_cases hkey : key = call.key
    · subst hkey
      rw [if_pos rfl, if_pos rfl, heldAfter, heldAfter]
      cases q <;> simp
    · rw [if_neg hkey, if_neg (Ne.symm hkey)]
  refine ⟨cache, _, by rw [UveStreamer.partition_callback, hstore]; rfl, ⟨hcache, fun key => ?_⟩,
    hheld', huves⟩
  simp only []
  cases q with
  | false => exact h.stream key
  | true =>
    rw [if_pos rfl, if_pos rfl, uveOf_append, hheld', h.stream key, if_pos rfl, callHeld, callHeld]
    cases call.typ <;> rfl

end Operations

-- ---------------------------------------------------------------------------
-- The steps of a round
-- ---------------------------------------------------------------------------

/-- The partition map after the steps. -/
def plannedAgp (agp : OrderedMap Nat PartInfo) : List StreamerTask → OrderedMap Nat PartInfo
  | [] => agp
  | .set_agp agp :: todo => plannedAgp agp todo
  | _ :: todo => plannedAgp agp todo

/-- The steps can be done when the parts `running` run, and then those of the map run: a
part is stopped that runs, cleared right after it, and started when it is stopped. -/
def Plan (agp : OrderedMap Nat PartInfo) : List StreamerTask → (Nat → Option PartInfo) → Prop
  | [], running => running = agp.find?
  | .next _ :: todo, running => Plan agp todo running
  | .partition_stop p :: todo, running =>
    (running p).isSome = true ∧ todo.head? = some (.clear_partition p) ∧
      Plan agp todo (Function.update running p none)
  | .clear_partition p :: todo, running => running p = none ∧ Plan agp todo running
  | .partition_start p pi :: todo, running =>
    running p = none ∧ Plan agp todo (Function.update running p (some pi))
  | .set_agp agp :: todo, running => Plan agp todo running
  | .clear_elem :: _, _ => False

/-- A part is stopped in the turn of its own partition. -/
def InTurn : List StreamerTask → Option Nat → Prop
  | [], _ => True
  | .next p :: todo, _ => InTurn todo (some p)
  | .partition_stop p :: todo, elem => elem = some p ∧ InTurn todo elem
  | _ :: todo, elem => InTurn todo elem

def UveStreamer.running (s : UveStreamer J) (p : Nat) : Option PartInfo :=
  (s._parts.find? p).map StreamerPart.pi

section Rounds

variable (agp : OrderedMap Nat PartInfo) (todo : List StreamerTask)

omit agp todo in
theorem findList_eq_none {l : List (Nat × PartInfo)} {p : Nat} (h : p ∉ l.map Prod.fst) :
    findList p l = none := by
  rw [← Option.not_isSome_iff_eq_none, findList_isSome_iff]
  rintro ⟨v, hv⟩
  exact h (List.mem_map_of_mem hv)

theorem plan_deleted (deleted : List Nat) (hnodup : deleted.Nodup) (running : Nat → Option PartInfo)
    (hrunning : ∀ p ∈ deleted, (running p).isSome = true)
    (hrest : Plan agp todo fun p => if p ∈ deleted then none else running p) :
    Plan agp (deleted.flatMap (fun p => [.next p, .partition_stop p, .clear_partition p]) ++ todo)
      running := by
  induction deleted generalizing running with
  | nil => simpa using hrest
  | cons p deleted ih =>
    obtain ⟨hnot, hnodup⟩ := List.nodup_cons.mp hnodup
    refine ⟨hrunning p List.mem_cons_self, rfl, Function.update_self .., ih hnodup _ ?_ ?_⟩
    · intro p' hp'
      have hne : p' ≠ p := fun heq => hnot (heq ▸ hp')
      rw [Function.update_of_ne hne]
      exact hrunning p' (List.mem_cons_of_mem p hp')
    · convert hrest using 2 with p'
      by_cases hp' : p' = p
      · simp [hp']
      · simp [hp', Function.update_of_ne]

theorem plan_new (new : List (Nat × PartInfo)) (hnodup : (new.map Prod.fst).Nodup)
    (running : Nat → Option PartInfo) (hrunning : ∀ e ∈ new, running e.1 = none)
    (hrest : Plan agp todo fun p => (findList p new).or (running p)) :
    Plan agp (new.flatMap (fun e => [.next e.1, .clear_partition e.1, .partition_start e.1 e.2]) ++ todo)
      running := by
  induction new generalizing running with
  | nil => exact hrest
  | cons e new ih =>
    obtain ⟨hnot, hnodup⟩ := List.nodup_cons.mp hnodup
    have hone := hrunning e List.mem_cons_self
    refine ⟨hone, hone, ih hnodup _ ?_ ?_⟩
    · intro e' he'
      have hne : e'.1 ≠ e.1 := fun heq => hnot (heq ▸ List.mem_map_of_mem he')
      rw [Function.update_of_ne hne]
      exact hrunning e' (List.mem_cons_of_mem e he')
    · convert hrest using 2 with p
      rw [findList]
      by_cases hp : p = e.1
      · simp [hp, findList_eq_none hnot]
      · simp [hp, Function.update_of_ne]

theorem plan_both (old : OrderedMap Nat PartInfo) (both : List (Nat × PartInfo))
    (hnodup : (both.map Prod.fst).Nodup) (running : Nat → Option PartInfo)
    (hrunning : ∀ e ∈ both, running e.1 = old.find? e.1 ∧ (old.find? e.1).isSome = true)
    (hrest : Plan agp todo fun p => (findList p both).or (running p)) :
    Plan agp (both.flatMap (fun e => .next e.1 ::
      if old.find? e.1 ≠ some e.2 then
        [.partition_stop e.1, .clear_partition e.1, .partition_start e.1 e.2]
      else []) ++ todo) running := by
  induction both generalizing running with
  | nil => exact hrest
  | cons e both ih =>
    obtain ⟨hnot, hnodup⟩ := List.nodup_cons.mp hnodup
    obtain ⟨hold, hsome⟩ := hrunning e List.mem_cons_self
    have hnone : findList e.1 both = none := findList_eq_none hnot
    have htail : ∀ running', (∀ p, p ≠ e.1 → running' p = running p) → running' e.1 = some e.2 →
        Plan agp (both.flatMap (fun e => .next e.1 ::
          if old.find? e.1 ≠ some e.2 then
            [.partition_stop e.1, .clear_partition e.1, .partition_start e.1 e.2]
          else []) ++ todo) running' := by
      intro running' hother hself
      refine ih hnodup running' ?_ ?_
      · intro e' he'
        rw [hother _ (fun heq => hnot (heq ▸ List.mem_map_of_mem he'))]
        exact hrunning e' (List.mem_cons_of_mem e he')
      · convert hrest using 2 with p
        rw [findList]
        by_cases hp : p = e.1
        · simp [hp, hnone, hself]
        · simp [hp, hother p hp]
    by_cases hsame : old.find? e.1 = some e.2
    · have hskip : ¬ (old.find? e.1 ≠ some e.2) := not_not.mpr hsame
      rw [List.flatMap_cons, if_neg hskip]
      exact htail running (fun p _ => rfl) (hold.trans hsame)
    · rw [List.flatMap_cons, if_pos hsame]
      refine ⟨by rw [hold]; exact hsome, rfl, Function.update_self .., Function.update_self .., ?_⟩
      refine htail _ (fun p hp => ?_) (Function.update_self ..)
      rw [Function.update_of_ne hp, Function.update_of_ne hp]

variable {agp todo} in
/-- The entries of a map that pass a test, in any order. -/
theorem findList_filter_perm {l : List (Nat × PartInfo)} (test : Nat → Bool)
    (hperm : l.Perm (agp.entries.filter fun e => test e.1)) (p : Nat) :
    findList p l = if test p then agp.find? p else none := by
  have hmem : ∀ v, (p, v) ∈ l ↔ agp.find? p = some v ∧ test p = true := by
    intro v
    rw [hperm.mem_iff, List.mem_filter, OrderedMap.mem_entries]
  cases hfind : findList p l with
  | none =>
    split
    · rename_i htest
      refine (Option.eq_none_iff_forall_not_mem.mpr fun v hv => ?_).symm
      have hsome := findList_isSome_iff.mpr ⟨v, (hmem v).mpr ⟨hv, htest⟩⟩
      rw [hfind] at hsome
      cases hsome
    · rfl
  | some v =>
    obtain ⟨hv, htest⟩ := (hmem v).mp (mem_of_findList hfind)
    rw [if_pos htest, hv]

omit todo in
/-- A round leads from the old map to the new one. -/
theorem plan_round {newagp : OrderedMap Nat PartInfo} {deleted : List Nat}
    {new both : List (Nat × PartInfo)} (hdeleted : deleted.Perm (deletedParts agp newagp))
    (hnew : new.Perm (newParts agp newagp)) (hboth : both.Perm (intersectParts agp newagp)) :
    Plan agp (roundTasks agp newagp deleted new both) agp.find? := by
  have hkeys : ∀ m : OrderedMap Nat PartInfo, (m.entries.map Prod.fst).Nodup := fun m =>
    List.pairwise_map.mpr (m.sorted.imp fun hlt => ne_of_lt hlt)
  have hfilter : ∀ (m : OrderedMap Nat PartInfo) (test : Nat × PartInfo → Bool),
      ((m.entries.filter test).map Prod.fst).Nodup :=
    fun m test => (hkeys m).sublist (List.filter_sublist.map _)
  have hmem : ∀ p, p ∈ deleted ↔ newagp.find? p = none ∧ (agp.find? p).isSome = true := by
    intro p
    rw [hdeleted.mem_iff, deletedParts, List.mem_map]
    constructor
    · rintro ⟨⟨p', pi⟩, hentry, rfl⟩
      obtain ⟨hold, hnone⟩ := List.mem_filter.mp hentry
      exact ⟨Option.isNone_iff_eq_none.mp hnone, by rw [OrderedMap.mem_entries.mp hold]; rfl⟩
    · rintro ⟨hnone, hsome⟩
      obtain ⟨pi, hpi⟩ := Option.isSome_iff_exists.mp hsome
      exact ⟨(p, pi), List.mem_filter.mpr ⟨OrderedMap.mem_entries.mpr hpi, by simp [hnone]⟩, rfl⟩
  have hfindNew := fun p => findList_filter_perm (fun p => (agp.find? p).isNone) hnew p
  have hfindBoth := fun p => findList_filter_perm (fun p => (agp.find? p).isSome) hboth p
  unfold roundTasks
  rw [List.append_assoc, List.append_assoc]
  refine plan_deleted _ _ deleted (hdeleted.nodup_iff.mpr (hfilter agp _)) _
    (fun p hp => ((hmem p).mp hp).2) ?_
  refine plan_new _ _ new ((hnew.map Prod.fst).nodup_iff.mpr (hfilter newagp _)) _ ?_ ?_
  · intro e he
    have hnone := (List.mem_filter.mp (hnew.mem_iff.mp he)).2
    rw [Option.isNone_iff_eq_none] at hnone
    simp [hnone]
  refine plan_both _ _ agp both ((hboth.map Prod.fst).nodup_iff.mpr (hfilter newagp _)) _ ?_ ?_
  · intro e he
    obtain ⟨hentry, hsome⟩ := List.mem_filter.mp (hboth.mem_iff.mp he)
    have hin : newagp.find? e.1 = some e.2 := OrderedMap.mem_entries.mp hentry
    have hout : e.1 ∉ deleted := fun hp => by
      rw [((hmem e.1).mp hp).1] at hin
      cases hin
    rw [hfindNew]
    obtain ⟨pi, hpi⟩ := Option.isSome_iff_exists.mp hsome
    simp [hpi, hout]
  · refine funext fun p => ?_
    simp only [hfindNew, hfindBoth, hmem]
    cases hold : agp.find? p <;> cases hin : newagp.find? p <;> simp

omit agp todo in
theorem inTurn_flatMap {α : Type} {turn : α → List StreamerTask} {todo : List StreamerTask}
    (hturn : ∀ a todo, (∀ elem, InTurn todo elem) → ∀ elem, InTurn (turn a ++ todo) elem)
    (htodo : ∀ elem, InTurn todo elem) (l : List α) (elem : Option Nat) :
    InTurn (l.flatMap turn ++ todo) elem := by
  induction l generalizing elem with
  | nil => exact htodo elem
  | cons a l ih =>
    rw [List.flatMap_cons, List.append_assoc]
    exact hturn a _ ih elem

omit agp todo in
theorem inTurn_round (agp newagp : OrderedMap Nat PartInfo) (deleted : List Nat)
    (new both : List (Nat × PartInfo)) (elem : Option Nat) :
    InTurn (roundTasks agp newagp deleted new both) elem := by
  unfold roundTasks
  rw [List.append_assoc, List.append_assoc]
  refine inTurn_flatMap ?_ (fun elem => ?_) deleted elem
  · intro p todo h _
    exact ⟨rfl, h _⟩
  refine inTurn_flatMap ?_ (fun elem => ?_) new elem
  · intro e todo h _
    exact h _
  have hlast : ∀ elem, InTurn [.set_agp newagp] elem := fun elem => trivial
  refine inTurn_flatMap ?_ hlast both elem
  intro e todo h _
  rw [List.cons_append]
  split
  · exact ⟨rfl, h _⟩
  · exact h _

end Rounds

-- ---------------------------------------------------------------------------
-- The invariant
-- ---------------------------------------------------------------------------

/-- While the streamer runs. What the cache holds of a partition was reported by the part
that runs now; a part that was stopped is cleared next. -/
structure RunPhase (part : String → Nat) (s : UveStreamer J) : Prop where
  plan : Plan s._agp s.todo s.running
  fresh : ∀ p part', s._parts.find? p = some part' → ∀ key, part key = p →
    s._uvedbcache.held key = uveOf part'.received key
  source : ∀ t b uve part', s._uvedbcache.uve t b = some uve →
    s._parts.find? (part (t ++ ":" ++ b)) = some part' →
    uve.source = part'.pi.source (part (t ++ ":" ++ b))
  stopped : ∀ p, s._parts.find? p = none →
    (∀ key, part key = p → s._uvedbcache.held key = none) ∨ s.todo.head? = some (.clear_partition p)
  bound : s.elem.isSome = true ∨ (∃ p, .next p ∈ s.todo) ∨ (plannedAgp s._agp s.todo).entries = []
  inTurn : InTurn s.todo s.elem

/-- While it stops: the parts `parts` are still to be stopped. -/
structure StopPhase (part : String → Nat) (s : UveStreamer J) (parts : List Nat) : Prop where
  running : ∀ p, (s._parts.find? p).isSome = true ↔ p ∈ parts
  nodup : parts.Nodup
  others : ∀ key, s.elem ≠ some (part key) → s._uvedbcache.held key = none
  bound : s.todo ≠ [] → s.elem.isSome = true
  todo : (s.todo = parts.flatMap (fun p => [.partition_stop p, .clear_elem]) ∧
      (parts = [] → ∀ key, s._uvedbcache.held key = none)) ∨
    s.todo = .clear_elem :: parts.flatMap fun p => [.partition_stop p, .clear_elem]

structure StreamerInv (part : String → Nat) (q : Bool) (s : UveStreamer J) : Prop where
  held : StreamInv part q s
  run : s.stopping = false → RunPhase part s
  stop : s.stopping = true → ∃ parts, StopPhase part s parts

section Steps

variable {part : String → Nat} {q : Bool} {s s' : UveStreamer J}

theorem streamerInv_init (part : String → Nat) (q : Bool) (emptyDict : J) :
    StreamerInv part q (streamerSystem q emptyDict).init where
  held := ⟨cacheInv_empty part, fun key => by
    cases hsplit : splitKey key with
    | none => cases q <;> simp [UveCacheProcessor.held, hsplit, uveOf, streamerSystem]
    | some split => cases q <;> simp [UveCacheProcessor.held, hsplit] <;> rfl⟩
  run _ :=
    { plan := rfl
      fresh := fun p part' hpart => by cases hpart
      source := fun t b uve part' huve => by cases huve
      stopped := fun p _ => Or.inl fun key _ => by
        cases hsplit : splitKey key with
        | none => simp [UveCacheProcessor.held, hsplit]
        | some split => simp [UveCacheProcessor.held, hsplit]; rfl
      bound := Or.inr (Or.inr rfl)
      inTurn := trivial }
  stop hstopping := by cases hstopping

theorem UveStreamer.running_assign (s : UveStreamer J) {partno : Nat} {part' : StreamerPart J}
    (hpart : s._parts.find? partno = some part') (part'' : StreamerPart J)
    (hpi : part''.pi = part'.pi) :
    ({ s with _parts := s._parts.assign partno part'' } : UveStreamer J).running = s.running := by
  refine funext fun p => ?_
  rw [UveStreamer.running, UveStreamer.running, OrderedMap.find?_assign]
  split
  · rename_i hp
    rw [hp, hpart, Option.map_some, Option.map_some, hpi]
  · rfl

/-- A part reports a UVE. -/
theorem runPhase_callback (h : RunPhase part s) {call : StreamCall J} {part' : StreamerPart J}
    (hpart : s._parts.find? (part call.key) = some part') {cache : UveCacheProcessor J}
    {messages : List (StreamCall J)}
    (hheld : ∀ key, cache.held key = callHeld key (s._uvedbcache.held key) call)
    (huves : ∀ t b uve, cache.uve t b = some uve → s._uvedbcache.uve t b = some uve ∨
      (t ++ ":" ++ b = call.key ∧ uve.source = part'.pi.source (part call.key))) :
    RunPhase part { s with
      _parts := s._parts.assign (part call.key) { part' with received := part'.received ++ [call] }
      _uvedbcache := cache
      messages } where
  plan := by
    have hrunning := s.running_assign hpart { part' with received := part'.received ++ [call] } rfl
    have hplan := h.plan
    rw [← hrunning] at hplan
    exact hplan
  fresh p part₁ hpart₁ key hown := by
    simp only [OrderedMap.find?_assign] at hpart₁
    rw [hheld]
    split at hpart₁
    · rename_i hp
      obtain rfl := Option.some.inj hpart₁
      rw [uveOf_append, ← h.fresh _ part' (hp ▸ hpart) key hown]
    · rename_i hp
      have hne : call.key ≠ key := fun heq => hp (heq ▸ hown.symm)
      rw [callHeld, if_neg hne]
      exact h.fresh p part₁ hpart₁ key hown
  source t b uve part₁ huve hpart₁ := by
    simp only [OrderedMap.find?_assign] at hpart₁
    rcases huves t b uve huve with hold | ⟨hname, hsource⟩
    · split at hpart₁
      · rename_i hp
        obtain rfl := Option.some.inj hpart₁
        exact h.source t b uve part' hold (hp ▸ hpart)
      · exact h.source t b uve part₁ hold hpart₁
    · rw [hname, if_pos rfl] at hpart₁
      obtain rfl := Option.some.inj hpart₁
      rw [hname]
      exact hsource
  stopped p hnone := by
    simp only [OrderedMap.find?_assign] at hnone
    split at hnone
    · cases hnone
    · rename_i hp
      refine (h.stopped p hnone).imp_left fun hempty key hown => ?_
      have hne : call.key ≠ key := fun heq => hp (heq ▸ hown.symm)
      rw [hheld, callHeld, if_neg hne]
      exact hempty key hown
  bound := h.bound
  inTurn := h.inTurn

theorem stopPhase_callback {parts : List Nat} (h : StopPhase part s parts) {call : StreamCall J}
    {part' : StreamerPart J} (hpart : s._parts.find? (part call.key) = some part')
    (hok : s.elem ≠ some (part call.key) → call.typ = none) {cache : UveCacheProcessor J}
    {messages : List (StreamCall J)}
    (hheld : ∀ key, cache.held key = callHeld key (s._uvedbcache.held key) call) :
    StopPhase part { s with
      _parts := s._parts.assign (part call.key) { part' with received := part'.received ++ [call] }
      _uvedbcache := cache
      messages } parts where
  running p := by
    rw [← h.running, OrderedMap.find?_assign]
    split
    · rename_i hp
      rw [hp, hpart]
      rfl
    · rfl
  nodup := h.nodup
  others key helem := by
    rw [hheld, callHeld]
    split
    · rename_i hkey
      rw [hok (hkey ▸ helem)]
      rfl
    · exact h.others key helem
  bound := h.bound
  todo := by
    refine h.todo.imp_left fun htodo => ⟨htodo.1, fun hparts => ?_⟩
    have hmem := (h.running (part call.key)).mp (by rw [hpart]; rfl)
    rw [hparts] at hmem
    cases hmem

theorem UveStreamer.running_erase (s : UveStreamer J) (p : Nat) :
    ({ s with _parts := s._parts.erase p } : UveStreamer J).running =
      Function.update s.running p none := by
  refine funext fun p' => ?_
  rw [UveStreamer.running, OrderedMap.find?_erase]
  by_cases hp : p' = p
  · simp [hp]
  · rw [if_neg hp, Function.update_of_ne hp]
    rfl

theorem UveStreamer.running_start (s : UveStreamer J) (p : Nat) (pi : PartInfo) :
    ({ s with _parts := s._parts.assign p ⟨pi, []⟩ } : UveStreamer J).running =
      Function.update s.running p (some pi) := by
  refine funext fun p' => ?_
  rw [UveStreamer.running, OrderedMap.find?_assign]
  by_cases hp : p' = p
  · simp [hp]
  · rw [if_neg hp, Function.update_of_ne hp]
    rfl

section Tasks

variable (h : RunPhase part s) {task : StreamerTask} {todo : List StreamerTask}
include h

/-- Unless the next step clears it, nothing is held of a part that does not run. -/
theorem RunPhase.held_eq_none (htodo : s.todo = task :: todo) {p : Nat}
    (hnone : s._parts.find? p = none) (htask : task ≠ .clear_partition p) :
    ∀ key, part key = p → s._uvedbcache.held key = none := by
  rcases h.stopped p hnone with hempty | hhead
  · exact hempty
  · rw [htodo] at hhead
    exact absurd (Option.some.inj hhead) htask

/-- A step that leaves the partition map planned as it was, and the partition at hand. -/
theorem RunPhase.bound_of_cons (htodo : s.todo = task :: todo)
    (hplanned : plannedAgp s._agp (task :: todo) = plannedAgp s._agp todo)
    (hnext : ∀ p, task ≠ .next p) :
    s.elem.isSome = true ∨ (∃ p, .next p ∈ todo) ∨ (plannedAgp s._agp todo).entries = [] := by
  have hbound := h.bound
  rw [htodo, hplanned] at hbound
  refine hbound.imp_right (Or.imp_left ?_)
  rintro ⟨p, hp⟩
  exact ⟨p, (List.mem_cons.mp hp).resolve_left (hnext p).symm⟩

theorem runPhase_partition_stop {p : Nat} (htodo : s.todo = .partition_stop p :: todo) :
    RunPhase part { s with _parts := s._parts.erase p, todo } where
  plan := by
    have hplan := h.plan
    rw [htodo] at hplan
    exact s.running_erase p ▸ hplan.2.2
  fresh p' part' hpart' := by
    rw [OrderedMap.find?_erase] at hpart'
    split at hpart'
    · cases hpart'
    · exact h.fresh p' part' hpart'
  source t b uve part' huve hpart' := by
    rw [OrderedMap.find?_erase] at hpart'
    split at hpart'
    · cases hpart'
    · exact h.source t b uve part' huve hpart'
  stopped p' hnone := by
    have hplan := h.plan
    rw [htodo] at hplan
    rw [OrderedMap.find?_erase] at hnone
    split at hnone
    · rename_i hp
      exact Or.inr (hp ▸ hplan.2.1)
    · exact Or.inl (h.held_eq_none htodo hnone nofun)
  bound := h.bound_of_cons htodo rfl nofun
  inTurn := by
    have hturn := h.inTurn
    rw [htodo] at hturn
    exact hturn.2

theorem runPhase_clear_partition {p : Nat} (htodo : s.todo = .clear_partition p :: todo)
    {cache : UveCacheProcessor J} {messages : List (StreamCall J)}
    (hheld : ∀ key, cache.held key = if part key = p then none else s._uvedbcache.held key)
    (huves : ∀ t b uve, cache.uve t b = some uve → s._uvedbcache.uve t b = some uve) :
    RunPhase part { s with todo, _uvedbcache := cache, messages } := by
  have hplan := h.plan
  have hturn := h.inTurn
  rw [htodo] at hplan hturn
  obtain ⟨hstopped, hplan⟩ := hplan
  refine ⟨hplan, ?_, ?_, ?_, h.bound_of_cons htodo rfl nofun, hturn⟩
  · intro p' part' hpart' key hown
    have hne : part key ≠ p := by
      intro heq
      rw [← hown, heq, Option.map_eq_none_iff.mp hstopped] at hpart'
      cases hpart'
    rw [hheld, if_neg hne]
    exact h.fresh p' part' hpart' key hown
  · exact fun t b uve part' huve => h.source t b uve part' (huves t b uve huve)
  · intro p' hnone
    refine Or.inl fun key hown => ?_
    rw [hheld]
    split
    · rfl
    · rename_i hne
      refine h.held_eq_none htodo hnone (fun heq => hne ?_) key hown
      rw [hown, StreamerTask.clear_partition.inj heq]

theorem runPhase_partition_start (hinv : StreamInv part q s) {p : Nat} {pi : PartInfo}
    (htodo : s.todo = .partition_start p pi :: todo) :
    RunPhase part { s with _parts := s._parts.assign p ⟨pi, []⟩, todo } := by
  have hplan := h.plan
  have hturn := h.inTurn
  rw [htodo] at hplan hturn
  obtain ⟨hstopped, hplan⟩ := hplan
  have hnone := h.held_eq_none htodo (Option.map_eq_none_iff.mp hstopped) nofun
  refine ⟨s.running_start p pi ▸ hplan, ?_, ?_, ?_, h.bound_of_cons htodo rfl nofun, hturn⟩
  · intro p' part' hpart' key hown
    rw [OrderedMap.find?_assign] at hpart'
    split at hpart'
    · rename_i hp
      obtain rfl := Option.some.inj hpart'
      exact hnone key (hown.trans hp)
    · exact h.fresh p' part' hpart' key hown
  · intro t b uve part' huve hpart'
    rw [OrderedMap.find?_assign] at hpart'
    split at hpart'
    · rename_i hp
      -- Nothing is held of the partition.
      have hsplit := hinv.cache.named t b (by rw [huve]; rfl)
      have hheld := hnone _ hp
      rw [UveCacheProcessor.held_of_splitKey hsplit, huve] at hheld
      cases hheld
    · exact h.source t b uve part' huve hpart'
  · intro p' hnone'
    rw [OrderedMap.find?_assign] at hnone'
    split at hnone'
    · cases hnone'
    · exact Or.inl (h.held_eq_none htodo hnone' nofun)

end Tasks

/-- A step of a round. -/
theorem runPhase_work (hinv : StreamInv part q s) (h : RunPhase part s) {task : StreamerTask}
    {todo : List StreamerTask} (htodo : s.todo = task :: todo) :
    ∃ s', UveStreamer.doTask q { s with todo } task = some s' ∧ s'.stopping = s.stopping ∧
      StreamInv part q s' ∧ RunPhase part s' := by
  have hplan := h.plan
  have hturn := h.inTurn
  rw [htodo] at hplan hturn
  cases task with
  | next elem =>
    refine ⟨_, rfl, rfl, ⟨hinv.cache, hinv.stream⟩, hplan, h.fresh, h.source, fun p hnone => ?_,
      Or.inl rfl, hturn⟩
    exact Or.inl (h.held_eq_none htodo hnone nofun)
  | partition_stop p =>
    have hsome : (s._parts.find? p).isSome = true := by
      have hrun := hplan.1
      rw [UveStreamer.running, Option.isSome_map] at hrun
      exact hrun
    exact ⟨_, if_pos hsome, rfl, ⟨hinv.cache, hinv.stream⟩, runPhase_partition_stop h htodo⟩
  | clear_partition p =>
    have hinv' : StreamInv part q { s with todo } := ⟨hinv.cache, hinv.stream⟩
    obtain ⟨cache, messages, hclear, hinv', hheld, huves⟩ := clear_spec hinv' p
    exact ⟨_, hclear, rfl, hinv', runPhase_clear_partition h htodo hheld huves⟩
  | partition_start p pi =>
    exact ⟨_, rfl, rfl, ⟨hinv.cache, hinv.stream⟩, runPhase_partition_start h hinv htodo⟩
  | clear_elem => exact absurd hplan id
  | set_agp agp =>
    refine ⟨_, rfl, rfl, ⟨hinv.cache, hinv.stream⟩, hplan, h.fresh, h.source, fun p hnone => ?_, ?_,
      hturn⟩
    · exact Or.inl (h.held_eq_none htodo hnone nofun)
    · have hbound := h.bound
      rw [htodo] at hbound
      simpa [plannedAgp] using hbound

/-- A step of stopping. -/
theorem stopPhase_work (hinv : StreamInv part q s) {parts : List Nat} (h : StopPhase part s parts)
    {task : StreamerTask} {todo : List StreamerTask} (htodo : s.todo = task :: todo) :
    ∃ s', UveStreamer.doTask q { s with todo } task = some s' ∧ s'.stopping = s.stopping ∧
      StreamInv part q s' ∧ ∃ parts', StopPhase part s' parts' := by
  have hbound := h.bound (by rw [htodo]; exact List.cons_ne_nil _ _)
  rcases h.todo with ⟨hparts, -⟩ | hparts
  · cases parts with
    | nil =>
      rw [htodo] at hparts
      cases hparts
    | cons p parts =>
      obtain ⟨rfl, rfl⟩ := List.cons.inj (htodo.symm.trans hparts)
      obtain ⟨hnot, hnodup⟩ := List.nodup_cons.mp h.nodup
      have hsome := (h.running p).mpr List.mem_cons_self
      refine ⟨_, if_pos hsome, rfl, ⟨hinv.cache, hinv.stream⟩, parts, fun p' => ?_, hnodup, h.others,
        fun _ => hbound, Or.inr rfl⟩
      rw [OrderedMap.find?_erase]
      split
      · rename_i hp
        rw [hp]
        exact ⟨fun hfalse => (by cases hfalse), fun hmem => absurd hmem hnot⟩
      · rename_i hp
        rw [h.running, List.mem_cons]
        exact ⟨fun hmem => hmem.resolve_left hp, Or.inr⟩
  · obtain ⟨rfl, rfl⟩ := List.cons.inj (htodo.symm.trans hparts)
    obtain ⟨elem, helem⟩ := Option.isSome_iff_exists.mp hbound
    have hinv' : StreamInv part q { s with
      todo := parts.flatMap fun p => [.partition_stop p, .clear_elem] } := ⟨hinv.cache, hinv.stream⟩
    obtain ⟨cache, messages, hclear, hinv', hheld, -⟩ := clear_spec hinv' elem
    have hothers : ∀ key, cache.held key = none := by
      intro key
      rw [hheld]
      split
      · rfl
      · rename_i hne
        refine h.others key ?_
        rw [helem]
        exact fun heq => hne (Option.some.inj heq).symm
    have hdo : UveStreamer.doTask q { s with
        todo := parts.flatMap fun p => [.partition_stop p, .clear_elem] } .clear_elem =
        UveStreamer.clear q { s with
          todo := parts.flatMap fun p => [.partition_stop p, .clear_elem] } elem := by
      simp only [UveStreamer.doTask, helem]
    refine ⟨_, hdo.trans hclear, rfl, hinv', parts, h.running, h.nodup,
      fun key _ => hothers key, fun _ => hbound, Or.inl ⟨rfl, fun _ => hothers⟩⟩

/-- A round begins. -/
theorem runPhase_round (h : RunPhase part s) (htodo : s.todo = []) {newagp : OrderedMap Nat PartInfo}
    {deleted : List Nat} {new both : List (Nat × PartInfo)}
    (hdeleted : deleted.Perm (deletedParts s._agp newagp)) (hnew : new.Perm (newParts s._agp newagp))
    (hboth : both.Perm (intersectParts s._agp newagp)) :
    RunPhase part { s with todo := roundTasks s._agp newagp deleted new both } where
  plan := by
    have hplan := h.plan
    rw [htodo] at hplan
    have hround := plan_round s._agp hdeleted hnew hboth
    rw [← show s.running = s._agp.find? from hplan] at hround
    exact hround
  fresh := h.fresh
  source := h.source
  stopped p hnone := by
    rcases h.stopped p hnone with hempty | hhead
    · exact Or.inl hempty
    · rw [htodo] at hhead
      cases hhead
  bound := by
    by_cases hentries : newagp.entries = []
    · refine Or.inr (Or.inr ?_)
      have hplanned : ∀ (agp : OrderedMap Nat PartInfo) (todo : List StreamerTask),
          plannedAgp agp (todo ++ [.set_agp newagp]) = newagp := by
        intro agp todo
        induction todo generalizing agp with
        | nil => rfl
        | cons task todo ih => cases task <;> exact ih _
      simp only [roundTasks, hplanned, hentries]
    · obtain ⟨e, he⟩ := List.exists_mem_of_ne_nil _ hentries
      refine Or.inr (Or.inl ⟨e.1, ?_⟩)
      -- Each partition of the new map is in one of two loops.
      simp only [roundTasks, List.mem_append, List.mem_flatMap]
      cases hold : s._agp.find? e.1 with
      | none =>
        have hmem : e ∈ new := hnew.mem_iff.mpr (List.mem_filter.mpr ⟨he, by simp [hold]⟩)
        exact Or.inl (Or.inl (Or.inr ⟨e, hmem, List.mem_cons_self⟩))
      | some pi =>
        have hmem : e ∈ both := hboth.mem_iff.mpr (List.mem_filter.mpr ⟨he, by simp [hold]⟩)
        exact Or.inl (Or.inr ⟨e, hmem, List.mem_cons_self⟩)
  inTurn := inTurn_round ..

/-- Where the streamer waits, no partition is cleared next. -/
theorem head_of_waits {todo : List StreamerTask} (h : waits todo = true) (p : Nat) :
    todo.head? ≠ some (.clear_partition p) := by
  cases todo with
  | nil => exact fun hhead => by cases hhead
  | cons task todo =>
    intro hhead
    obtain rfl := Option.some.inj hhead
    cases h

/-- The streamer begins to stop. -/
theorem stopPhase_stop (hinv : StreamInv part q s) (h : RunPhase part s)
    (hwaits : waits s.todo = true)
    (hrunning : ∀ p, (s._parts.find? p).isSome = (s._agp.find? p).isSome)
    (hok : ∀ p, s.elem ≠ some p → s._uvedbcache.partKeys p = []) :
    StopPhase part { s with todo := stopTasks s._agp, stopping := true }
      (s._agp.entries.map Prod.fst) := by
  have htasks : stopTasks s._agp =
      (s._agp.entries.map Prod.fst).flatMap fun p => [.partition_stop p, .clear_elem] := by
    rw [stopTasks, List.flatMap_map]
  refine ⟨fun p => ?_, ?_, fun key helem => ?_, fun hne => ?_, Or.inl ⟨htasks, fun hnil key => ?_⟩⟩
  · rw [hrunning, OrderedMap.find?, findList_isSome_iff]
    simp
  · exact List.pairwise_map.mpr (s._agp.sorted.imp fun hlt => ne_of_lt hlt)
  · exact (partKeys_eq_nil_iff hinv.cache (part key)).mp (hok _ helem) key rfl
  · have hturn := h.inTurn
    have hbound := h.bound
    cases htodo : s.todo with
    | nil =>
      rw [htodo] at hbound
      rcases hbound with helem | ⟨p, hp⟩ | hempty
      · exact helem
      · cases hp
      · rw [plannedAgp] at hempty
        rw [stopTasks, hempty] at hne
        exact absurd rfl hne
    | cons task todo =>
      -- It waits for the part of `elem`.
      rw [htodo] at hwaits hturn
      cases task with
      | partition_stop p => exact Option.isSome_iff_exists.mpr ⟨p, hturn.1⟩
      | _ => cases hwaits
  · have hnone : s._parts.find? (part key) = none := by
      rw [← Option.not_isSome_iff_eq_none, hrunning, OrderedMap.find?, findList_isSome_iff]
      rintro ⟨pi, hpi⟩
      have hmem := List.mem_map_of_mem (f := Prod.fst) hpi
      rw [hnil] at hmem
      cases hmem
    rcases h.stopped _ hnone with hempty | hhead
    · exact hempty key rfl
    · exact absurd hhead (head_of_waits hwaits _)

theorem streamerInv_step {emptyDict : J} (h : StreamerInv part q s) (a : StreamerEvent J)
    (hown : ReportsOwn part a) (hok : StopsAtElem s a)
    (hstep : UveStreamer.step q emptyDict s a = some s') : StreamerInv part q s' := by
  cases a with
  | round newagp deleted new both =>
    rw [UveStreamer.step] at hstep
    split at hstep
    · rename_i hguard
      -- a round begins when the one before it is done
      obtain ⟨htodo, hrun, hdeleted, hnew, hboth⟩ := hguard
      obtain rfl := Option.some.inj hstep
      refine ⟨⟨h.held.cache, h.held.stream⟩,
        fun _ => runPhase_round (h.run hrun) htodo hdeleted hnew hboth, fun hstop => ?_⟩
      rw [hrun] at hstop
      cases hstop
    · cases hstep
  | work =>
    rw [UveStreamer.step] at hstep
    split at hstep
    · cases hstep
    · rename_i task todo htodo
      -- the next thing to do, of the round or of the stop
      cases hstopping : s.stopping with
      | false =>
        obtain ⟨s₁, hs₁, hsame, hinv, hphase⟩ := runPhase_work h.held (h.run hstopping) htodo
        obtain rfl := Option.some.inj (hs₁.symm.trans hstep)
        refine ⟨hinv, fun _ => hphase, fun hstop => ?_⟩
        rw [hsame, hstopping] at hstop
        cases hstop
      | true =>
        obtain ⟨parts, hparts⟩ := h.stop hstopping
        obtain ⟨s₁, hs₁, hsame, hinv, hphase⟩ := stopPhase_work h.held hparts htodo
        obtain rfl := Option.some.inj (hs₁.symm.trans hstep)
        refine ⟨hinv, fun hrun => ?_, fun _ => hphase⟩
        rw [hsame, hstopping] at hrun
        cases hrun
  | partition_callback partno call =>
    obtain ⟨rfl, hsplit⟩ := hown
    rw [UveStreamer.step] at hstep
    split at hstep
    · cases hstep
    · rename_i part' hpart
      -- what a part reports is of that part
      obtain ⟨cache, messages, hcall, hinv, hheld, huves⟩ :=
        callback_spec h.held emptyDict part' hsplit
      obtain rfl := Option.some.inj (hcall.symm.trans hstep)
      refine ⟨hinv, fun hrun => runPhase_callback (h.run hrun) hpart hheld huves, fun hstop => ?_⟩
      obtain ⟨parts, hparts⟩ := h.stop hstop
      exact ⟨parts, stopPhase_callback hparts hpart (hok hstop) hheld⟩
  | stop =>
    rw [UveStreamer.step] at hstep
    split at hstep
    · rename_i hguard
      obtain rfl := Option.some.inj hstep
      -- what is left of a round is left out, and all parts are to be stopped
      refine ⟨⟨h.held.cache, h.held.stream⟩, fun hrun => ?_, fun _ =>
        ⟨_, stopPhase_stop h.held (h.run hguard.2) hguard.1 hok.1 hok.2⟩⟩
      cases hrun
    · cases hstep

end Steps

-- ---------------------------------------------------------------------------
-- Runs
-- ---------------------------------------------------------------------------

/-- After each round the parts of the map run, with their current information, and the
cache and the stream hold only what these parts have reported since they were started.
When the streamer has stopped, nothing is reported any more. No step of it fails. -/
theorem streamer_life_cycle (part : String → Nat) {q : Bool} {emptyDict : J} {s : UveStreamer J}
    (h : (streamerSystem q emptyDict).ReachableVia
      (fun s a => ReportsOwn part a ∧ StopsAtElem s a) s) :
    (s.stopping = false → s.todo = [] →
      (∀ p, (s._parts.find? p).map StreamerPart.pi = s._agp.find? p) ∧
      (∀ t b uve, s._uvedbcache.uve t b = some uve → ∃ p part', s._parts.find? p = some part' ∧
        uve.source = part'.pi.source p ∧
        uveOf part'.received (t ++ ":" ++ b) = some fun typ => (uve.types.find? typ).isSome) ∧
      (∀ typ t b, b ∈ (s._uvedbcache.typeTables typ).barekeys t →
        ∃ uve, s._uvedbcache.uve t b = some uve ∧ (uve.types.find? typ).isSome = true) ∧
      ∀ key types, uveOf s.messages key = some types → ∃ p part', s._parts.find? p = some part' ∧
        uveOf part'.received key = some types) ∧
    (s.stopping = true → s.todo = [] → ∀ key, uveOf s.messages key = none) ∧
    (s.todo ≠ [] → ∃ s', UveStreamer.step q emptyDict s .work = some s') := by
  have hinv : StreamerInv part q s := h.invariant (streamerInv_init part q emptyDict)
    fun s a s' hinv hok hstep => streamerInv_step hinv a hok.1 hok.2 hstep
  refine ⟨fun hrun htodo => ?_, fun hstop htodo key => ?_, fun htodo => ?_⟩
  · have hphase := hinv.run hrun
    have hplan := hphase.plan
    rw [htodo] at hplan
    -- What is held is of a part that runs.
    have hheld : ∀ key types, s._uvedbcache.held key = some types →
        ∃ part', s._parts.find? (part key) = some part' ∧ uveOf part'.received key = some types := by
      intro key types htypes
      cases hpart : s._parts.find? (part key) with
      | none =>
        rcases hphase.stopped _ hpart with hempty | hhead
        · rw [hempty key rfl] at htypes
          cases htypes
        · rw [htodo] at hhead
          cases hhead
      | some part' =>
        exact ⟨part', rfl, (hphase.fresh _ part' hpart key rfl).symm.trans htypes⟩
    refine ⟨fun p => congrFun hplan p, fun t b uve huve => ?_, fun typ t b hmem => ?_,
      fun key types htypes => ?_⟩
    · have hsplit := hinv.held.cache.named t b (by rw [huve]; rfl)
      obtain ⟨part', hpart, hreceived⟩ := hheld (t ++ ":" ++ b) _ (by
        rw [UveCacheProcessor.held_of_splitKey hsplit, huve]
        rfl)
      exact ⟨_, part', hpart, hphase.source t b uve part' huve hpart, hreceived⟩
    · exact (hinv.held.cache.index typ t b).mp hmem
    · rw [hinv.held.stream] at htypes
      split at htypes
      · obtain ⟨part', hpart, hreceived⟩ := hheld key types htypes
        exact ⟨_, part', hpart, hreceived⟩
      · cases htypes
  · -- once it has stopped every part has been taken back
    obtain ⟨parts, hparts⟩ := hinv.stop hstop
    rcases hparts.todo with ⟨htasks, hnone⟩ | htasks
    · have hnil : parts = [] := by
        cases parts with
        | nil => rfl
        | cons p parts =>
          rw [htodo] at htasks
          cases htasks
      rw [hinv.held.stream, hnone hnil key]
      split <;> rfl
    · rw [htodo] at htasks
      cases htasks
  · -- whatever is to be done can be done, in a round or while it stops
    obtain ⟨task, todo, htasks⟩ := List.exists_cons_of_ne_nil htodo
    cases hstopping : s.stopping with
    | false =>
      obtain ⟨s', hs', -⟩ := runPhase_work hinv.held (hinv.run hstopping) htasks
      exact ⟨s', by simp only [UveStreamer.step, htasks]; exact hs'⟩
    | true =>
      obtain ⟨parts, hparts⟩ := hinv.stop hstopping
      obtain ⟨s', hs', -⟩ := stopPhase_work hinv.held hparts htasks
      exact ⟨s', by simp only [UveStreamer.step, htasks]; exact hs'⟩

section Sample

def sampleInfo : PartInfo := ⟨"10.0.0.1", "alarm-gen", "10.0.0.1", 7, 1000, 6379⟩

def sampleSystem : System (UveStreamer Unit) (StreamerEvent Unit) := streamerSystem true ()

def streamerState (events : List (StreamerEvent Unit)) : UveStreamer Unit :=
  (sampleSystem.run events).getD sampleSystem.init

/-- A round that starts parts. -/
def startParts (parts : List (Nat × PartInfo)) : List (StreamerEvent Unit) :=
  .round (.ofList parts) [] parts [] :: List.replicate (3 * parts.length + 1) .work

def SampleOk (s : UveStreamer Unit) (a : StreamerEvent Unit) : Prop :=
  ReportsOwn (fun _ => 0) a ∧ StopsAtElem s a

def sampleReport : StreamerEvent Unit := .partition_callback 0 ⟨"t:a", some "S", some ()⟩

/-- The partition goes away, and the streamer is stopped while it waits for the part. -/
def sampleEnd : List (StreamerEvent Unit) := [.round .empty [0] [] [], .work, .stop, .work, .work]

theorem streamer_life_cycle_sample :
    uveOf (streamerState (startParts [(0, sampleInfo)] ++ sampleReport :: sampleEnd)).messages
      "t:a" = none := by
  have hstarted : sampleSystem.ReachableVia SampleOk
      (streamerState (startParts [(0, sampleInfo)])) := by
    refine System.reachableVia_of_run (show sampleSystem.run (startParts [(0, sampleInfo)]) = _ from rfl)
      fun a ha s s' _ => ?_
    rcases List.mem_cons.mp ha with rfl | ha
    · exact ⟨trivial, trivial⟩
    · rw [List.eq_of_mem_replicate ha]
      exact ⟨trivial, trivial⟩
  have hreported : sampleSystem.ReachableVia SampleOk
      (streamerState (startParts [(0, sampleInfo)] ++ [sampleReport])) := by
    refine .step (a := sampleReport) hstarted ⟨⟨rfl, rfl⟩, fun hstop => ?_⟩ rfl
    cases hstop
  have hround : sampleSystem.ReachableVia SampleOk
      (streamerState (startParts [(0, sampleInfo)] ++ sampleReport :: sampleEnd.take 2)) :=
    .step (a := .work) (.step (a := .round .empty [0] [] []) hreported ⟨trivial, trivial⟩ rfl)
      ⟨trivial, trivial⟩ rfl
  have hstopping : sampleSystem.ReachableVia SampleOk
      (streamerState (startParts [(0, sampleInfo)] ++ sampleReport :: sampleEnd.take 3)) := by
    refine .step (a := .stop) hround ⟨trivial, fun p => ?_, fun p hp => ?_⟩ rfl
    · have hparts : (streamerState (startParts [(0, sampleInfo)] ++
          sampleReport :: sampleEnd.take 2))._parts.entries =
          [(0, ⟨sampleInfo, [⟨"t:a", some "S", some ()⟩]⟩)] := rfl
      have hagp : (streamerState (startParts [(0, sampleInfo)] ++
          sampleReport :: sampleEnd.take 2))._agp.entries = [(0, sampleInfo)] := rfl
      simp only [OrderedMap.find?, hparts, hagp, findList]
      split <;> rfl
    · have hkeys : (streamerState (startParts [(0, sampleInfo)] ++
          sampleReport :: sampleEnd.take 2))._uvedbcache._partkeys.entries = [(0, ["t:a"])] := rfl
      have hne : p ≠ 0 := by
        rintro rfl
        exact hp rfl
      simp [UveCacheProcessor.partKeys, OrderedMap.find?, hkeys, findList, hne]
  have hkilled : sampleSystem.ReachableVia SampleOk
      (streamerState (startParts [(0, sampleInfo)] ++ sampleReport :: sampleEnd.take 4)) :=
    .step (a := .work) hstopping ⟨trivial, trivial⟩ rfl
  have hstopped : sampleSystem.ReachableVia SampleOk
      (streamerState (startParts [(0, sampleInfo)] ++ sampleReport :: sampleEnd)) :=
    .step (a := .work) hkilled ⟨trivial, trivial⟩ rfl
  exact (streamer_life_cycle (fun _ => 0) hstopped).2.1 rfl rfl "t:a"

/-- With two parts the UVEs of one of them stay on the stream. -/
theorem stopped_stream_reports :
    ¬ ∀ (part : String → Nat) (s : UveStreamer Unit),
      (streamerSystem true ()).ReachableVia (fun _ a => ReportsOwn part a) s →
      s.stopping = true → s.todo = [] → ∀ key, uveOf s.messages key = none := by
  intro hclaim
  have hrun : sampleSystem.run (startParts [(0, sampleInfo), (1, sampleInfo)] ++
      [sampleReport, .stop, .work, .work, .work, .work]) =
      some (streamerState (startParts [(0, sampleInfo), (1, sampleInfo)] ++
        [sampleReport, .stop, .work, .work, .work, .work])) := rfl
  have hnone := hclaim (fun _ => 0) _ (System.reachableVia_of_run hrun fun a ha s s' _ => ?_) rfl rfl "t:a"
  · have hsome : (uveOf (streamerState (startParts [(0, sampleInfo), (1, sampleInfo)] ++
        [sampleReport, .stop, .work, .work, .work, .work])).messages "t:a").isSome = true := rfl
    rw [hnone] at hsome
    cases hsome
  · cases a with
    | partition_callback partno call =>
      have hcall : StreamerEvent.partition_callback partno call = sampleReport := by
        simpa [startParts, sampleReport] using ha
      obtain ⟨rfl, rfl⟩ := StreamerEvent.partition_callback.inj hcall
      exact ⟨rfl, rfl⟩
    | _ => trivial

end Sample

end TfAnalytics.OpServer
