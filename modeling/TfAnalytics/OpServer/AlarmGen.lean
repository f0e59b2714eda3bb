import TfAnalytics.Lib.OrderedMap
import TfAnalytics.Lib.Redis
import TfAnalytics.Lib.Transition
import Mathlib.Data.String.Basic

/-!
# Alarm generator — aggregated UVEs

The alarm generator (alarmgen.py) keeps an aggregated copy of the UVEs of a
partition in Redis. Keys that may have changed wait in `_uveq`; a batch of them
is taken, `handle_uve_notif` reads each UVE, compares it with the copy in
`ptab_info` and returns the differences, and `run_uve_agg` writes these to
AGPARTVALUES. When a read fails, `handle_uve_notif` returns nothing and the batch
is queued again.

A run is any sequence of notifications, of batches taken and of batches
finished, with any answers of `get_uve`. It starts with the partition cleared.

* `content_handle` / `reports_handle`: what a batch does to the copy, and that
  its output is the difference;
* `hget_run_uve_agg`: writing an output applies it;
* `agg_matches_after_success`: what the aggregate holds after a batch succeeds.
-/

namespace TfAnalytics.OpServer

open TfAnalytics.Lib

variable {α : Type} [DecidableEq α]

-- ---------------------------------------------------------------------------
-- AGKeyInfo
-- ---------------------------------------------------------------------------

/-- The contents of a UVE by struct type, and what the last update did. -/
structure AGKeyInfo (α : Type) where
  current_dict : OrderedMap String α
  set_added : List String
  set_removed : List String
  set_changed : List String
  set_unchanged : List String

/-- The keys of a dict. -/
def dictKeys {β : Type} (m : OrderedMap String β) : List String := m.entries.map Prod.fst

namespace AGKeyInfo

def new : AGKeyInfo α := ⟨.empty, [], [], [], []⟩

/-- One struct has changed; `none` when it has gone away. -/
def update_single (info : AGKeyInfo α) (typ : String) (val : Option α) : AGKeyInfo α :=
  let unchanged := dictKeys info.current_dict
  match info.current_dict.find? typ, val with
  | some _, none =>
    ⟨info.current_dict.erase typ, [], [typ], [], unchanged.erase typ⟩
  | some old, some val =>
    if val ≠ old then ⟨info.current_dict.assign typ val, [], [], [typ], unchanged.erase typ⟩
    else ⟨info.current_dict, [], [], [], unchanged⟩
  | none, some val => ⟨info.current_dict.assign typ val, [typ], [], [], unchanged⟩
  | none, none => ⟨info.current_dict, [], [], [], unchanged⟩

/-- The entire new content is known. -/
def update (info : AGKeyInfo α) (new_dict : OrderedMap String α) : AGKeyInfo α :=
  let set_current := dictKeys new_dict
  let set_past := dictKeys info.current_dict
  let set_intersect := set_current.filter (· ∈ set_past)
  { current_dict := new_dict
    set_added := set_current.filter (· ∉ set_intersect)
    set_removed := set_past.filter (· ∉ set_intersect)
    set_changed := set_intersect.filter fun o => new_dict.find? o ≠ info.current_dict.find? o
    set_unchanged := set_intersect.filter fun o => new_dict.find? o = info.current_dict.find? o }

def touches (info : AGKeyInfo α) : Bool :=
  !info.set_removed.isEmpty || !info.set_changed.isEmpty || !info.set_added.isEmpty

end AGKeyInfo

-- ---------------------------------------------------------------------------
-- handle_uve_notif
-- ---------------------------------------------------------------------------

/-- The struct types to look at: those given, or all of them. -/
abbrev Types := Option (List String)

/-- `ptab_info[part]`, under the whole key table:name. -/
abbrev PtabInfo (α : Type) := OrderedMap String (AGKeyInfo α)

/-- The differences by key and type: the new value, or none for a struct that is
gone; none for a UVE that is gone. -/
abbrev Output (α : Type) := OrderedMap String (Option (OrderedMap String (Option α)))

/-- What `get_uve` returns: whether there were failures, and the UVE. -/
abbrev GetUve (α : Type) := String → Types → Bool × OrderedMap String α

/-- What the last update did, added to `output[uv]`. -/
def recordOutput (info : AGKeyInfo α) (out : OrderedMap String (Option α)) :
    OrderedMap String (Option α) :=
  let out := info.set_removed.foldl (fun out rems => out.assign rems none) out
  let out := info.set_changed.foldl
    (fun out chgs => out.assign chgs (info.current_dict.find? chgs)) out
  info.set_added.foldl (fun out adds => out.assign adds (info.current_dict.find? adds)) out

/-- The copy of one UVE, `output[uv]` and `touched`, after one struct. -/
def updateType (uve_data : OrderedMap String α)
    (acc : AGKeyInfo α × OrderedMap String (Option α) × Bool) (typ : String) :
    AGKeyInfo α × OrderedMap String (Option α) × Bool :=
  let info := acc.1.update_single typ (uve_data.find? typ)
  (info, recordOutput info acc.2.1, acc.2.2 || info.touches)

def updateInfo (info : AGKeyInfo α) (types : Types) (uve_data : OrderedMap String α) :
    AGKeyInfo α × OrderedMap String (Option α) × Bool :=
  match types with
  | none | some [] =>
    let info := info.update uve_data
    (info, recordOutput info .empty, info.touches)
  | some types => types.foldl (updateType uve_data) (info, .empty, false)

/-- One UVE of the batch. A UVE without structs is removed from the copy. -/
def processUve (get_uve : GetUve α) (acc : PtabInfo α × Output α) (e : String × Types) :
    PtabInfo α × Output α :=
  let uv := e.1
  let res := updateInfo ((acc.1.find? uv).getD .new) e.2 (get_uve uv e.2).2
  let output := if res.2.2 then acc.2.assign uv (some res.2.1) else acc.2.erase uv
  if res.1.current_dict.isEmpty then (acc.1.erase uv, output.assign uv none)
  else (acc.1.assign uv res.1, output)

def handle_uve_notif (get_uve : GetUve α) (ptab_info : PtabInfo α)
    (uves : List (String × Types)) : PtabInfo α × Option (Output α) :=
  let res := uves.foldl (processUve get_uve) (ptab_info, .empty)
  let success := uves.all fun e => !(get_uve e.1 e.2).1
  (res.1, if success then some res.2 else none)

-- ---------------------------------------------------------------------------
-- run_uve_agg
-- ---------------------------------------------------------------------------

/-- What is fixed while a partition is held. -/
structure AggConf (α : Type) where
  _instance_id : String
  part : Nat
  acq_time : Nat
  _max_out_rows : Nat
  dumps : α → String

structure OutputRow (α : Type) where
  key : String
  typ : Option String
  val : Option α

namespace AggConf

def agParts (c : AggConf α) : String := "AGPARTS:" ++ c._instance_id

def agPartKeys (c : AggConf α) : String :=
  "AGPARTKEYS:" ++ c._instance_id ++ ":" ++ toString c.part

def agPartValues (c : AggConf α) (key : String) : String :=
  "AGPARTVALUES:" ++ c._instance_id ++ ":" ++ toString c.part ++ ":" ++ key

end AggConf

/-- `acq_time` is 0 when there is none. -/
def clear_agg_uve (c : AggConf α) (redish : Redis) (acq_time : Nat) : Redis :=
  let keys := redish.smembers c.agPartKeys
  let redish := redish.hdel c.agParts (toString c.part)
  let redish := keys.foldl (fun redish elem => redish.del (c.agPartValues elem)) redish
  let redish := redish.del c.agPartKeys
  if acq_time ≠ 0 then redish.hset c.agParts (toString c.part) (toString acq_time) else redish

def sendRow (c : AggConf α) (redish : Redis) (row : OutputRow α) : Redis :=
  match row.typ, row.val with
  | none, _ => (redish.srem c.agPartKeys row.key).del (c.agPartValues row.key)
  | some typ, none => redish.hdel (c.agPartValues row.key) typ
  | some typ, some val =>
    (redish.sadd c.agPartKeys row.key).hset (c.agPartValues row.key) typ (c.dumps val)

/-- The keys that may have lost their last struct. -/
def checkKeys (rows : List (OutputRow α)) : List String :=
  (rows.filter fun row => row.typ.isSome && row.val.isNone).map OutputRow.key

def send_agg_uve (c : AggConf α) (redish : Redis) (rows : List (OutputRow α)) : Redis :=
  let redish :=
    match redish.hget c.agParts (toString c.part) with
    | none => redish.hset c.agParts (toString c.part) (toString c.acq_time)
    | some old_acq_time =>
      if old_acq_time ≠ toString c.acq_time then clear_agg_uve c redish c.acq_time else redish
  let redish := rows.foldl (sendRow c) redish
  let gone := (checkKeys rows).filter fun kk => !redish.exists (c.agPartValues kk)
  gone.foldl (fun redish kk => redish.srem c.agPartKeys kk) redish

/-- The rows for one key of the output. -/
def rowsOf (e : String × Option (OrderedMap String (Option α))) : List (OutputRow α) :=
  match e.2 with
  | none => [⟨e.1, none, none⟩]
  | some vu => vu.entries.map fun t => ⟨e.1, some t.1, t.2⟩

/-- Rows are sent when there are `_max_out_rows` of them, and at the end. -/
def sendRows (c : AggConf α) (rows : List (OutputRow α)) :
    List (OutputRow α) → Redis → Redis
  | [], lredis => if rows.isEmpty then lredis else send_agg_uve c lredis rows
  | row :: rest, lredis =>
    if (rows ++ [row]).length ≥ c._max_out_rows then
      sendRows c [] rest (send_agg_uve c lredis (rows ++ [row]))
    else sendRows c (rows ++ [row]) rest lredis

def run_uve_agg (c : AggConf α) (lredis : Redis) (outp : Output α) : Redis :=
  sendRows c [] (outp.entries.flatMap rowsOf) lredis

-- ---------------------------------------------------------------------------
-- The queue and the processing loop
-- ---------------------------------------------------------------------------

/-- `_uveq[part]`: the keys to look at, oldest first, each once. -/
structure UveQueue where
  entries : List (String × Types)
  nodup : (entries.map Prod.fst).Nodup

def mergeTypes : Types → Types → Types
  | _, none => none
  | none, _ => none
  | some old, some types => some (old ++ types.filter (· ∉ old))

/-- One key of `handle_uve_notifq`. A key that is waiting keeps its place. -/
def enqueueEntries (q : List (String × Types)) (e : String × Types) : List (String × Types) :=
  if e.1 ∈ q.map Prod.fst then
    q.map fun f => if f.1 = e.1 then (f.1, mergeTypes f.2 e.2) else f
  else q ++ [e]

theorem nodup_enqueueEntries {q : List (String × Types)} (h : (q.map Prod.fst).Nodup)
    (e : String × Types) : ((enqueueEntries q e).map Prod.fst).Nodup := by
  unfold enqueueEntries
  split
  · have hkeys : (q.map fun f => if f.1 = e.1 then (f.1, mergeTypes f.2 e.2) else f).map
        Prod.fst = q.map Prod.fst := by
      rw [List.map_map]
      refine List.map_congr_left fun f _ => ?_
      simp only [Function.comp_apply]
      split <;> rfl
    rwa [hkeys]
  · rename_i hnew
    rw [List.map_append]
    exact h.append (List.nodup_singleton e.1) (List.disjoint_singleton.mpr hnew)

namespace UveQueue

def empty : UveQueue := ⟨[], List.nodup_nil⟩

def enqueue (q : UveQueue) (e : String × Types) : UveQueue :=
  ⟨enqueueEntries q.entries e, nodup_enqueueEntries q.nodup e⟩

def handle_uve_notifq (q : UveQueue) (uves : List (String × Types)) : UveQueue :=
  uves.foldl enqueue q

/-- `popitem` takes the newest key; no more than 200 are taken at a time. -/
def batch (q : UveQueue) : UveQueue :=
  ⟨q.entries.reverse.take 200, by
    rw [List.map_take]
    exact ((List.map_reverse ▸ List.nodup_reverse.mpr q.nodup).take)⟩

def remaining (q : UveQueue) : UveQueue :=
  ⟨(q.entries.reverse.drop 200).reverse, by
    rw [List.map_reverse, List.nodup_reverse, List.map_drop]
    exact ((List.map_reverse ▸ List.nodup_reverse.mpr q.nodup).drop)⟩

end UveQueue

structure AggState (α : Type) where
  _uveq : UveQueue
  pendingset : Option UveQueue
  ptab_info : PtabInfo α
  lredis : Redis

/-- Notifications may come at any time, also while a batch is processed. -/
inductive AggEvent (α : Type) where
  | notify (uves : List (String × Types))
  | take
  | finish (get_uve : GetUve α)

/-- The part of `run_uve_processing` for one partition. -/
def aggStep (c : AggConf α) (s : AggState α) : AggEvent α → Option (AggState α)
  | .notify uves => some { s with _uveq := s._uveq.handle_uve_notifq uves }
  | .take =>
    if s.pendingset.isSome || s._uveq.entries.isEmpty then none
    else some { s with _uveq := s._uveq.remaining, pendingset := some s._uveq.batch }
  | .finish get_uve =>
    match s.pendingset with
    | none => none
    | some uves =>
      let (ptab_info, outp) := handle_uve_notif get_uve s.ptab_info uves.entries
      match outp with
      | none =>
        some { s with
          _uveq := s._uveq.handle_uve_notifq uves.entries
          pendingset := none
          ptab_info }
      | some outp =>
        some { s with pendingset := none, ptab_info, lredis := run_uve_agg c s.lredis outp }

def aggSystem (c : AggConf α) : System (AggState α) (AggEvent α) where
  init := ⟨.empty, none, .empty, .empty⟩
  step := aggStep c

-- ---------------------------------------------------------------------------
-- What a batch does to the copy
-- ---------------------------------------------------------------------------

/-- The value of a struct in the copy. -/
def content (ptab_info : PtabInfo α) (uv typ : String) : Option α :=
  (ptab_info.find? uv).bind fun info => info.current_dict.find? typ

/-- The types that a notification is about. -/
def Selected (types : Types) (typ : String) : Prop :=
  match types with
  | none | some [] => True
  | some types => typ ∈ types

theorem mem_dictKeys {β : Type} {m : OrderedMap String β} {k : String} :
    k ∈ dictKeys m ↔ m.find? k ≠ none := by
  unfold dictKeys
  rw [List.mem_map, Option.ne_none_iff_exists']
  constructor
  · rintro ⟨⟨k', v⟩, hkv, rfl⟩
    exact ⟨v, OrderedMap.mem_entries.mp hkv⟩
  · rintro ⟨v, hv⟩
    exact ⟨(k, v), OrderedMap.mem_entries.mpr hv, rfl⟩

omit [DecidableEq α] in
theorem find?_recordOutput (info : AGKeyInfo α) (out : OrderedMap String (Option α)) (t : String) :
    (recordOutput info out).find? t =
      if t ∈ info.set_added ∨ t ∈ info.set_changed then some (info.current_dict.find? t)
      else if t ∈ info.set_removed then some none else out.find? t := by
  unfold recordOutput
  simp only [OrderedMap.find?_foldl_assign]
  by_cases ha : t ∈ info.set_added <;> simp [ha]

/-- An output says what changed: the new value where it has one. -/
def Reports (out : OrderedMap String (Option α)) (old new : String → Option α) : Prop :=
  ∀ t, new t = (out.find? t).getD (old t)

theorem update_reports (info : AGKeyInfo α) (d : OrderedMap String α) :
    Reports (recordOutput (info.update d) .empty) info.current_dict.find? d.find? := by
  intro t
  rw [find?_recordOutput]
  simp only [AGKeyInfo.update, List.mem_filter, decide_eq_true_eq, mem_dictKeys,
    OrderedMap.find?_empty]
  cases hold : info.current_dict.find? t with
  | none =>
    cases hnew : d.find? t <;> simp
  | some old =>
    cases hnew : d.find? t with
    | none => simp
    | some new => by_cases heq : new = old <;> simp [heq]

theorem find?_update_single (info : AGKeyInfo α) (typ : String) (val : Option α) (t : String) :
    (info.update_single typ val).current_dict.find? t =
      if t = typ then val else info.current_dict.find? t := by
  unfold AGKeyInfo.update_single
  cases hold : info.current_dict.find? typ with
  | none =>
    cases val with
    | none =>
      by_cases ht : t = typ <;> simp [ht, hold]
    | some val => exact OrderedMap.find?_assign _ _ _ _
  | some old =>
    cases val with
    | none => exact OrderedMap.find?_erase _ _ _
    | some val =>
      by_cases hval : val = old
      · by_cases ht : t = typ <;> simp [ht, hval, hold]
      · simp only [ne_eq, hval, not_false_eq_true, if_true]
        exact OrderedMap.find?_assign _ _ _ _

theorem find?_record_single (info : AGKeyInfo α) (typ : String) (val : Option α)
    (out : OrderedMap String (Option α)) (t : String) :
    (recordOutput (info.update_single typ val) out).find? t =
      if t = typ ∧ info.current_dict.find? typ ≠ val then some val else out.find? t := by
  rw [find?_recordOutput, find?_update_single]
  unfold AGKeyInfo.update_single
  cases hcur : info.current_dict.find? typ with
  | none =>
    cases val <;> by_cases ht : t = typ <;> simp [ht]
  | some cur =>
    cases val with
    | none => by_cases ht : t = typ <;> simp [ht]
    | some val =>
      by_cases hval : val = cur
      · by_cases ht : t = typ <;> simp [ht, hval]
      · by_cases ht : t = typ <;> simp [ht, hval, Ne.symm hval]

/-- The output grows by the struct that changed. -/
theorem Reports.update_single {info : AGKeyInfo α} {out : OrderedMap String (Option α)}
    {old : String → Option α} (h : Reports out old info.current_dict.find?) (typ : String)
    (val : Option α) :
    Reports (recordOutput (info.update_single typ val) out) old
      (info.update_single typ val).current_dict.find? := by
  intro t
  rw [find?_record_single, find?_update_single]
  by_cases ht : t = typ
  · by_cases hval : info.current_dict.find? typ = val
    · rw [if_pos ht, if_neg (fun hne => hne.2 hval), ← h t, ht, hval]
    · rw [if_pos ht, if_pos ⟨ht, hval⟩, Option.getD_some]
  · rw [if_neg ht, if_neg (fun hne => ht hne.1), h t]

omit [DecidableEq α] in
theorem recordOutput_untouched {info : AGKeyInfo α} (h : info.touches = false)
    (out : OrderedMap String (Option α)) : recordOutput info out = out := by
  unfold AGKeyInfo.touches at h
  simp only [Bool.or_eq_false_iff, Bool.not_eq_false', List.isEmpty_iff] at h
  obtain ⟨⟨hremoved, hchanged⟩, hadded⟩ := h
  rw [recordOutput, hremoved, hchanged, hadded]
  rfl

/-- What an update of the copy of one UVE leaves: the types it is about as they
were read, the others as they were, and the difference as its output. -/
structure Updated (info : AGKeyInfo α) (types : Types) (uve_data : OrderedMap String α)
    (res : AGKeyInfo α × OrderedMap String (Option α) × Bool) : Prop where
  selected : ∀ t, Selected types t → res.1.current_dict.find? t = uve_data.find? t
  others : ∀ t, ¬Selected types t → res.1.current_dict.find? t = info.current_dict.find? t
  reports : Reports res.2.1 info.current_dict.find? res.1.current_dict.find?
  untouched : res.2.2 = false → res.2.1 = .empty

theorem updated_all {types : Types} (hall : ∀ t, Selected types t) (info : AGKeyInfo α)
    (uve_data : OrderedMap String α) :
    Updated info types uve_data (info.update uve_data, recordOutput (info.update uve_data) .empty,
      (info.update uve_data).touches) where
  selected _ _ := rfl
  others t ht := absurd (hall t) ht
  reports := update_reports info uve_data
  untouched h := recordOutput_untouched h _

/-- The loop over the types, from any point. -/
theorem foldl_updateType (uve_data : OrderedMap String α) (old : String → Option α)
    (types : List String) :
    ∀ acc : AGKeyInfo α × OrderedMap String (Option α) × Bool,
      Reports acc.2.1 old acc.1.current_dict.find? → (acc.2.2 = false → acc.2.1 = .empty) →
      Reports (types.foldl (updateType uve_data) acc).2.1 old
          (types.foldl (updateType uve_data) acc).1.current_dict.find? ∧
        ((types.foldl (updateType uve_data) acc).2.2 = false →
          (types.foldl (updateType uve_data) acc).2.1 = .empty) ∧
        ∀ t, (types.foldl (updateType uve_data) acc).1.current_dict.find? t =
          if t ∈ types then uve_data.find? t else acc.1.current_dict.find? t := by
  induction types with
  | nil =>
    intro acc hreports huntouched
    exact ⟨hreports, huntouched, fun t => by simp⟩
  | cons typ types ih =>
    intro acc hreports huntouched
    obtain ⟨h1, h2, h3⟩ := ih (updateType uve_data acc typ)
      (hreports.update_single typ (uve_data.find? typ)) (by
        intro hnot
        obtain ⟨hacc, hinfo⟩ := Bool.or_eq_false_iff.mp hnot
        exact (recordOutput_untouched hinfo _).trans (huntouched hacc))
    refine ⟨h1, h2, fun t => ?_⟩
    rw [List.foldl_cons, h3 t]
    by_cases ht : t ∈ types
    · rw [if_pos ht, if_pos (List.mem_cons_of_mem typ ht)]
    · rw [if_neg ht, updateType, find?_update_single]
      by_cases htyp : t = typ
      · rw [if_pos htyp, if_pos (htyp ▸ List.mem_cons_self), htyp]
      · rw [if_neg htyp, if_neg (by simp [htyp, ht])]

theorem updated_updateInfo (info : AGKeyInfo α) (types : Types)
    (uve_data : OrderedMap String α) :
    Updated info types uve_data (updateInfo info types uve_data) := by
  match types with
  | none =>
    have hall : ∀ t, Selected none t := fun _ => trivial
    exact updated_all hall info uve_data
  | some [] =>
    have hall : ∀ t, Selected (some []) t := fun _ => trivial
    exact updated_all hall info uve_data
  | some (typ :: types) =>
    obtain ⟨hreports, huntouched, hcontent⟩ := foldl_updateType uve_data
      info.current_dict.find? (typ :: types) (info, .empty, false) (fun t => rfl) (fun _ => rfl)
    refine ⟨fun t ht => ?_, fun t ht => ?_, hreports, huntouched⟩
    · exact (hcontent t).trans (if_pos ht)
    · exact (hcontent t).trans (if_neg ht)

/-- A value after an output has been applied to it. -/
def applied (out : Option (Option (OrderedMap String (Option α)))) (t : String)
    (old : Option α) : Option α :=
  match out with
  | none => old
  | some none => none
  | some (some out) => (out.find? t).getD old

omit [DecidableEq α] in
theorem content_new (ptab_info : PtabInfo α) (uv t : String) :
    content ptab_info uv t = ((ptab_info.find? uv).getD .new).current_dict.find? t := by
  unfold content
  cases ptab_info.find? uv <;> rfl

omit [DecidableEq α] in
theorem content_assign (ptab_info : PtabInfo α) (uv v t : String) (info : AGKeyInfo α) :
    content (ptab_info.assign uv info) v t =
      if v = uv then info.current_dict.find? t else content ptab_info v t := by
  unfold content
  rw [OrderedMap.find?_assign]
  by_cases hv : v = uv <;> simp [hv]

omit [DecidableEq α] in
theorem content_erase (ptab_info : PtabInfo α) (uv v t : String) :
    content (ptab_info.erase uv) v t = if v = uv then none else content ptab_info v t := by
  unfold content
  rw [OrderedMap.find?_erase]
  by_cases hv : v = uv <;> simp [hv]

section Process

variable (get_uve : GetUve α) (acc : PtabInfo α × Output α) (e : String × Types)

/-- The copy after one UVE of a batch. -/
theorem content_processUve (v t : String) :
    content (processUve get_uve acc e).1 v t =
      if v = e.1 then (updateInfo ((acc.1.find? e.1).getD .new) e.2
        (get_uve e.1 e.2).2).1.current_dict.find? t
      else content acc.1 v t := by
  unfold processUve
  simp only []
  split
  · rename_i hempty
    rw [content_erase, OrderedMap.isEmpty_iff.mp hempty t]
  · rw [content_assign]

theorem find?_processUve_of_ne {v : String} (hv : v ≠ e.1) :
    (processUve get_uve acc e).1.find? v = acc.1.find? v := by
  unfold processUve
  simp only []
  split <;> simp [OrderedMap.find?_assign, OrderedMap.find?_erase, hv]

theorem output_processUve_of_ne {v : String} (hv : v ≠ e.1) :
    (processUve get_uve acc e).2.find? v = acc.2.find? v := by
  unfold processUve
  simp only []
  split <;> split <;> simp [OrderedMap.find?_assign, OrderedMap.find?_erase, hv]

/-- The output of one UVE is the difference it made. -/
theorem reports_processUve (t : String) :
    content (processUve get_uve acc e).1 e.1 t =
      applied ((processUve get_uve acc e).2.find? e.1) t (content acc.1 e.1 t) := by
  have hupdated := updated_updateInfo ((acc.1.find? e.1).getD .new) e.2 (get_uve e.1 e.2).2
  rw [content_processUve, if_pos rfl]
  unfold processUve
  simp only []
  split
  · rename_i hempty
    rw [OrderedMap.find?_assign, if_pos rfl, OrderedMap.isEmpty_iff.mp hempty t]
    rfl
  · rw [hupdated.reports t, ← content_new]
    split
    · rw [OrderedMap.find?_assign, if_pos rfl]
      rfl
    · rename_i htouched
      rw [OrderedMap.find?_erase, if_pos rfl, hupdated.untouched (by simpa using htouched)]
      rfl

end Process

/-- Over a batch: the output is the difference between the copy before and
after it. The invariant is that the keys still to come have no output yet. -/
theorem reports_foldl (get_uve : GetUve α) (ptab : PtabInfo α) (uves : List (String × Types)) :
    ∀ acc : PtabInfo α × Output α, (uves.map Prod.fst).Nodup →
      (∀ v ∈ uves.map Prod.fst, acc.2.find? v = none) →
      (∀ v t, content acc.1 v t = applied (acc.2.find? v) t (content ptab v t)) →
      ∀ v t, content (uves.foldl (processUve get_uve) acc).1 v t =
        applied ((uves.foldl (processUve get_uve) acc).2.find? v) t (content ptab v t) := by
  induction uves with
  | nil => exact fun acc _ _ hacc => hacc
  | cons e uves ih =>
    intro acc hnodup hnew hacc
    rw [List.map_cons, List.nodup_cons] at hnodup
    refine ih (processUve get_uve acc e) hnodup.2 (fun v hv => ?_) (fun v t => ?_)
    · have hne : v ≠ e.1 := fun heq => hnodup.1 (heq ▸ hv)
      rw [output_processUve_of_ne get_uve acc e hne]
      exact hnew v (List.mem_cons_of_mem _ hv)
    · by_cases hv : v = e.1
      · have hold : content acc.1 e.1 t = content ptab e.1 t := by
          rw [hacc, hnew e.1 List.mem_cons_self]
          rfl
        rw [hv, reports_processUve, hold]
      · rw [content_processUve, if_neg hv, output_processUve_of_ne get_uve acc e hv, hacc]

theorem reports_handle (get_uve : GetUve α) (ptab : PtabInfo α) {uves : List (String × Types)}
    (hnodup : (uves.map Prod.fst).Nodup) {outp : Output α}
    (h : (handle_uve_notif get_uve ptab uves).2 = some outp) (v t : String) :
    content (handle_uve_notif get_uve ptab uves).1 v t =
      applied (outp.find? v) t (content ptab v t) := by
  unfold handle_uve_notif at h ⊢
  simp only [] at h ⊢
  split at h
  · injection h with h
    subst h
    exact reports_foldl get_uve ptab uves (ptab, .empty) hnodup (fun _ _ => rfl) (fun _ _ => rfl) v t
  · cases h

/-- A batch that reads what is in the copy already. -/
def ReadsCopy (get_uve : GetUve α) (ptab_info : PtabInfo α) (uves : List (String × Types)) :
    Prop :=
  ∀ e ∈ uves, ∀ t, Selected e.2 t → (get_uve e.1 e.2).2.find? t = content ptab_info e.1 t

theorem content_processUve_readsCopy {get_uve : GetUve α} {acc : PtabInfo α × Output α}
    {e : String × Types}
    (h : ∀ t, Selected e.2 t → (get_uve e.1 e.2).2.find? t = content acc.1 e.1 t) (v t : String) :
    content (processUve get_uve acc e).1 v t = content acc.1 v t := by
  have hupdated := updated_updateInfo ((acc.1.find? e.1).getD .new) e.2 (get_uve e.1 e.2).2
  rw [content_processUve]
  by_cases hv : v = e.1
  · rw [if_pos hv, hv]
    by_cases ht : Selected e.2 t
    · rw [hupdated.selected t ht, h t ht]
    · rw [hupdated.others t ht, content_new]
  · rw [if_neg hv]

/-- Such a batch leaves the copy as it is. -/
theorem content_handle_readsCopy {get_uve : GetUve α} {ptab : PtabInfo α}
    {uves : List (String × Types)} (h : ReadsCopy get_uve ptab uves) (v t : String) :
    content (handle_uve_notif get_uve ptab uves).1 v t = content ptab v t := by
  have hfold : ∀ (uves : List (String × Types)) (acc : PtabInfo α × Output α),
      ReadsCopy get_uve acc.1 uves → ∀ v t,
        content (uves.foldl (processUve get_uve) acc).1 v t = content acc.1 v t := by
    intro uves
    induction uves with
    | nil => exact fun _ _ _ _ => rfl
    | cons e uves ih =>
      intro acc hread v t
      have hsame := content_processUve_readsCopy (hread e List.mem_cons_self)
      rw [List.foldl_cons, ih _ _ v t, hsame]
      intro e' he' t' ht'
      rw [hsame, hread e' (List.mem_cons_of_mem e he') t' ht']
  exact hfold uves (ptab, .empty) h v t

-- ---------------------------------------------------------------------------
-- What writing an output does
-- ---------------------------------------------------------------------------

section Writing

omit [DecidableEq α]

variable (c : AggConf α)

theorem agPartValues_inj {v w : String} : c.agPartValues v = c.agPartValues w ↔ v = w := by
  refine ⟨fun h => ?_, congrArg _⟩
  unfold AggConf.agPartValues at h
  exact (String.append_right_inj _).mp h

theorem agPartValues_ne_agParts (v : String) : c.agPartValues v ≠ c.agParts := by
  intro h
  have hchar := congrArg (fun s => s.toList[6]?) h
  unfold AggConf.agPartValues AggConf.agParts at hchar
  simp at hchar

/-- What one row does to the stored value of a struct. -/
def rowEffect (v t : String) (old : Option String) (row : OutputRow α) : Option String :=
  match row.typ with
  | none => if v = row.key then none else old
  | some typ => if v = row.key ∧ t = typ then row.val.map c.dumps else old

theorem hget_sendRow (redish : Redis) (row : OutputRow α) (v t : String) :
    (sendRow c redish row).hget (c.agPartValues v) t =
      rowEffect c v t (redish.hget (c.agPartValues v) t) row := by
  unfold sendRow rowEffect
  obtain ⟨key, typ, val⟩ := row
  cases typ <;> cases val <;> simp [agPartValues_inj]

theorem hget_foldl_sendRow (rows : List (OutputRow α)) (redish : Redis) (v t : String) :
    (rows.foldl (sendRow c) redish).hget (c.agPartValues v) t =
      rows.foldl (rowEffect c v t) (redish.hget (c.agPartValues v) t) := by
  induction rows generalizing redish with
  | nil => rfl
  | cons row rows ih => rw [List.foldl_cons, List.foldl_cons, ih, hget_sendRow]

theorem sendRow_agParts (redish : Redis) (row : OutputRow α) (f : String) :
    (sendRow c redish row).hget c.agParts f = redish.hget c.agParts f := by
  unfold sendRow
  have hne : c.agParts ≠ c.agPartValues row.key := (agPartValues_ne_agParts c _).symm
  split <;> simp [hne]

/-- The partition is new, or was acquired with the current time. -/
def AcqCurrent (redish : Redis) : Prop :=
  ∀ old, redish.hget c.agParts (toString c.part) = some old → old = toString c.acq_time

/-- The check of the acquisition time. -/
def acqChecked (redish : Redis) : Redis :=
  match redish.hget c.agParts (toString c.part) with
  | none => redish.hset c.agParts (toString c.part) (toString c.acq_time)
  | some old_acq_time =>
    if old_acq_time ≠ toString c.acq_time then clear_agg_uve c redish c.acq_time else redish

theorem acqChecked_current {redish : Redis} (h : AcqCurrent c redish) :
    AcqCurrent c (acqChecked c redish) ∧
      ∀ v t, (acqChecked c redish).hget (c.agPartValues v) t =
        redish.hget (c.agPartValues v) t := by
  unfold acqChecked
  cases hold : redish.hget c.agParts (toString c.part) with
  | none =>
    refine ⟨fun old hnew => ?_, fun v t => ?_⟩
    · simpa [eq_comm] using hnew
    · simp [agPartValues_ne_agParts]
  | some old =>
    have hsame : ¬old ≠ toString c.acq_time := not_not.mpr (h old hold)
    simpa only [if_neg hsame, implies_true, and_true] using h

/-- Taking keys out of the index of keys leaves the hashes alone. -/
theorem hget_foldl_srem (key : String) (members : List String) (redish : Redis) :
    (members.foldl (fun redish kk => redish.srem key kk) redish).hget = redish.hget := by
  induction members generalizing redish with
  | nil => rfl
  | cons kk members ih => rw [List.foldl_cons, ih, Redis.srem_hget]

theorem send_agg_uve_current {redish : Redis} (h : AcqCurrent c redish)
    (rows : List (OutputRow α)) :
    AcqCurrent c (send_agg_uve c redish rows) ∧
      ∀ v t, (send_agg_uve c redish rows).hget (c.agPartValues v) t =
        rows.foldl (rowEffect c v t) (redish.hget (c.agPartValues v) t) := by
  obtain ⟨hcurrent, hvalues⟩ := acqChecked_current c h
  have hsend : (send_agg_uve c redish rows).hget =
      (rows.foldl (sendRow c) (acqChecked c redish)).hget := by
    unfold send_agg_uve
    exact hget_foldl_srem _ _ _
  have hparts : ∀ (rows : List (OutputRow α)) (redish : Redis),
      (rows.foldl (sendRow c) redish).hget c.agParts = redish.hget c.agParts := by
    intro rows
    induction rows with
    | nil => exact fun _ => rfl
    | cons row rows ih =>
      intro redish
      rw [List.foldl_cons, ih]
      exact funext (sendRow_agParts c redish row)
  constructor
  · intro old hold
    rw [hsend, hparts] at hold
    exact hcurrent old hold
  · intro v t
    rw [hsend, hget_foldl_sendRow, hvalues]

theorem sendRows_current (rest : List (OutputRow α)) :
    ∀ (rows : List (OutputRow α)) (redish : Redis), AcqCurrent c redish →
      AcqCurrent c (sendRows c rows rest redish) ∧
        ∀ v t, (sendRows c rows rest redish).hget (c.agPartValues v) t =
          (rows ++ rest).foldl (rowEffect c v t) (redish.hget (c.agPartValues v) t) := by
  induction rest with
  | nil =>
    intro rows redish h
    unfold sendRows
    split
    · rename_i hrows
      rw [List.isEmpty_iff.mp hrows]
      exact ⟨h, fun _ _ => rfl⟩
    · rw [List.append_nil]
      exact send_agg_uve_current c h rows
  | cons row rest ih =>
    intro rows redish h
    have hsplit : rows ++ row :: rest = (rows ++ [row]) ++ rest := by simp
    unfold sendRows
    rw [hsplit]
    split
    · obtain ⟨hcurrent, hvalues⟩ := send_agg_uve_current c h (rows ++ [row])
      obtain ⟨hcurrent', hvalues'⟩ := ih [] _ hcurrent
      refine ⟨hcurrent', fun v t => ?_⟩
      rw [hvalues', hvalues, List.nil_append, ← List.foldl_append]
    · exact ih (rows ++ [row]) redish h

/-- What the rows of one key do to it. -/
theorem foldl_rowsOf_self (v t : String) (vu : Option (OrderedMap String (Option α)))
    (old : Option α) :
    (rowsOf (v, vu)).foldl (rowEffect c v t) (old.map c.dumps) =
      (applied (some vu) t old).map c.dumps := by
  cases vu with
  | none => simp [rowsOf, rowEffect, applied]
  | some vu =>
    simp only [rowsOf, List.foldl_map]
    rw [OrderedMap.foldl_entries (k := t)]
    · cases hfind : vu.find? t <;> simp [rowEffect, applied, hfind]
    · intro s e he
      exact if_neg fun h => he h.2.symm

theorem rowEffect_of_ne {v t : String} {row : OutputRow α} (h : v ≠ row.key) (old : Option String) :
    rowEffect c v t old row = old := by
  unfold rowEffect
  split <;> simp [h]

theorem foldl_rowsOf_of_ne {v t : String} {e : String × Option (OrderedMap String (Option α))}
    (h : e.1 ≠ v) (old : Option String) : (rowsOf e).foldl (rowEffect c v t) old = old := by
  have hkeys : ∀ row ∈ rowsOf e, v ≠ row.key := by
    intro row hrow
    unfold rowsOf at hrow
    split at hrow
    · rw [List.mem_singleton.mp hrow]
      exact h.symm
    · obtain ⟨_, _, rfl⟩ := List.mem_map.mp hrow
      exact h.symm
  generalize rowsOf e = rows at hkeys
  induction rows with
  | nil => rfl
  | cons row rows ih =>
    rw [List.foldl_cons, rowEffect_of_ne c (hkeys row List.mem_cons_self)]
    exact ih fun row' hrow' => hkeys row' (List.mem_cons_of_mem row hrow')

/-- Writing an output applies it to every stored value. -/
theorem hget_run_uve_agg {redish : Redis} (h : AcqCurrent c redish) (outp : Output α)
    (v t : String) {old : Option α} (hold : redish.hget (c.agPartValues v) t = old.map c.dumps) :
    (run_uve_agg c redish outp).hget (c.agPartValues v) t =
      (applied (outp.find? v) t old).map c.dumps := by
  have hrows : (run_uve_agg c redish outp).hget (c.agPartValues v) t = _ :=
    (sendRows_current c (outp.entries.flatMap rowsOf) [] redish h).2 v t
  rw [hrows, List.nil_append, hold, List.foldl_flatMap,
    OrderedMap.foldl_entries fun s e he => foldl_rowsOf_of_ne c he s]
  cases hfind : outp.find? v with
  | none => rfl
  | some vu => rw [Option.elim_some, foldl_rowsOf_self]

end Writing

-- ---------------------------------------------------------------------------
-- Runs
-- ---------------------------------------------------------------------------

section Runs

variable (c : AggConf α)

/-- The stored values are those of the copy. -/
structure InSync (s : AggState α) : Prop where
  acq : AcqCurrent c s.lredis
  values : ∀ uv typ, s.lredis.hget (c.agPartValues uv) typ =
    (content s.ptab_info uv typ).map c.dumps

/-- The step is not a failed batch that read anything new. -/
def HarmlessStep (s : AggState α) : AggEvent α → Prop
  | .finish get_uve => ∀ uves, s.pendingset = some uves →
      (∃ e ∈ uves.entries, (get_uve e.1 e.2).1 = true) →
      ReadsCopy get_uve s.ptab_info uves.entries
  | _ => True

/-- What a finished batch leaves. -/
theorem finish_cases {s s' : AggState α} {get_uve : GetUve α}
    (h : aggStep c s (.finish get_uve) = some s') :
    ∃ uves, s.pendingset = some uves ∧
      s'.ptab_info = (handle_uve_notif get_uve s.ptab_info uves.entries).1 ∧
      (((∃ e ∈ uves.entries, (get_uve e.1 e.2).1 = true) ∧ s'.lredis = s.lredis) ∨
        ∃ outp, (handle_uve_notif get_uve s.ptab_info uves.entries).2 = some outp ∧
          s'.lredis = run_uve_agg c s.lredis outp) := by
  unfold aggStep at h
  cases hpending : s.pendingset with
  | none =>
    rw [hpending] at h
    cases h
  | some uves =>
    rw [hpending] at h
    simp only [] at h
    refine ⟨uves, rfl, ?_⟩
    cases houtp : (handle_uve_notif get_uve s.ptab_info uves.entries).2 with
    | none =>
      rw [houtp] at h
      injection h with h
      subst h
      refine ⟨rfl, .inl ⟨?_, rfl⟩⟩
      unfold handle_uve_notif at houtp
      simp only [ite_eq_right_iff, reduceCtorEq, imp_false, List.all_eq_true, Bool.not_eq_true',
        not_forall, Bool.not_eq_false] at houtp
      obtain ⟨e, he, hfail⟩ := houtp
      exact ⟨e, he, hfail⟩
    | some outp =>
      rw [houtp] at h
      injection h with h
      subst h
      exact ⟨rfl, .inr ⟨outp, rfl, rfl⟩⟩

theorem inSync_init : InSync c (aggSystem c).init where
  acq := nofun
  values _ _ := rfl

/-- A successful batch keeps the aggregate in step with the copy. -/
theorem InSync.run_uve_agg {s : AggState α} (h : InSync c s) {get_uve : GetUve α}
    {uves : List (String × Types)} (hnodup : (uves.map Prod.fst).Nodup) {outp : Output α}
    (houtp : (handle_uve_notif get_uve s.ptab_info uves).2 = some outp) (v t : String) :
    (OpServer.run_uve_agg c s.lredis outp).hget (c.agPartValues v) t =
      (content (handle_uve_notif get_uve s.ptab_info uves).1 v t).map c.dumps := by
  rw [hget_run_uve_agg c h.acq outp v t (h.values v t), reports_handle get_uve _ hnodup houtp]

theorem inSync_step (s : AggState α) (a : AggEvent α) (s' : AggState α) (h : InSync c s)
    (hok : HarmlessStep s a) (hstep : aggStep c s a = some s') : InSync c s' := by
  cases a with
  | notify uves =>
    injection hstep with hstep
    subst hstep
    exact ⟨h.acq, h.values⟩
  | take =>
    rw [aggStep] at hstep
    split at hstep
    · cases hstep
    · injection hstep with hstep
      subst hstep
      exact ⟨h.acq, h.values⟩
  | finish get_uve =>
    obtain ⟨uves, hpending, hptab, ⟨hfail, hredis⟩ | ⟨outp, houtp, hredis⟩⟩ := finish_cases c hstep
    · have hread := hok uves hpending hfail
      refine ⟨hredis ▸ h.acq, fun v t => ?_⟩
      rw [hredis, hptab, content_handle_readsCopy hread, h.values]
    · refine ⟨?_, fun v t => ?_⟩
      · rw [hredis]
        exact (sendRows_current c _ [] _ h.acq).1
      · rw [hredis, hptab]
        exact h.run_uve_agg c uves.nodup houtp v t

/-- As long as failed batches read only what the copy holds, a batch that succeeds
leaves its UVEs in AGPARTVALUES as they are in `ptab_info`. -/
theorem agg_matches_after_success {s s' : AggState α}
    (h : (aggSystem c).ReachableVia HarmlessStep s) {uves : UveQueue}
    (hpending : s.pendingset = some uves) {get_uve : GetUve α}
    (hsuccess : ∀ e ∈ uves.entries, (get_uve e.1 e.2).1 = false)
    (hstep : aggStep c s (.finish get_uve) = some s') :
    ∀ uv ∈ uves.entries.map Prod.fst, ∀ typ,
      s'.lredis.hget (c.agPartValues uv) typ = (content s'.ptab_info uv typ).map c.dumps := by
  intro uv _ typ
  have hsync : InSync c s := h.invariant (inSync_init c) (inSync_step c)
  have hok : HarmlessStep s (.finish get_uve) := by
    intro uves' hpending' ⟨e, he, hfail⟩
    obtain rfl := Option.some.inj (hpending.symm.trans hpending')
    rw [hsuccess e he] at hfail
    cases hfail
  exact (inSync_step c s _ s' hsync hok hstep).values uv typ

end Runs

section Sample

def sampleConf : AggConf Nat := ⟨"alarm-gen", 3, 1000, 2, toString⟩

/-- An answer of `get_uve` with one struct. -/
def sampleAnswer (failures : Bool) : GetUve Nat := fun _ _ => (failures, .ofList [("S", 1)])

def sampleEvents : List (AggEvent Nat) := [.notify [("t:a", none)], .take]

/-- The state after a run. -/
def sampleState (events : List (AggEvent Nat)) : AggState Nat :=
  ((aggSystem sampleConf).run events).getD (aggSystem sampleConf).init

/-- A batch that enters the struct, and one that fails and reads it again. -/
def sampleRetry : List (AggEvent Nat) :=
  sampleEvents ++ [.finish (sampleAnswer false), .notify [("t:a", none)], .take,
    .finish (sampleAnswer true), .take]

theorem agg_matches_sample :
    ∃ s', aggStep sampleConf (sampleState sampleRetry)
        (.finish fun _ _ => (false, .ofList [("S", 2)])) = some s' ∧
      s'.lredis.hget (sampleConf.agPartValues "t:a") "S" =
        (content s'.ptab_info "t:a" "S").map sampleConf.dumps ∧
      content s'.ptab_info "t:a" "S" = some 2 := by
  have hentered : (aggSystem sampleConf).ReachableVia HarmlessStep
      (sampleState (sampleEvents ++ [.finish (sampleAnswer false)])) := by
    refine System.reachableVia_of_run (show (aggSystem sampleConf).run (sampleEvents ++
      [.finish (sampleAnswer false)]) = some _ from rfl) ?_
    intro a ha s s' _
    simp only [sampleEvents, List.cons_append, List.nil_append, List.mem_cons, List.not_mem_nil,
      or_false] at ha
    rcases ha with rfl | rfl | rfl
    · trivial
    · trivial
    · rintro uves - ⟨e, -, hfail⟩
      cases hfail
  have hagain : (aggSystem sampleConf).ReachableVia HarmlessStep
      (sampleState (sampleEvents ++ [.finish (sampleAnswer false), .notify [("t:a", none)],
        .take])) :=
    .step (a := .take) (.step (a := .notify [("t:a", none)]) hentered trivial rfl) trivial rfl
  -- the failed batch reads the struct as the copy has it
  have hfailed : (aggSystem sampleConf).ReachableVia HarmlessStep
      (sampleState (sampleEvents ++ [.finish (sampleAnswer false), .notify [("t:a", none)], .take,
        .finish (sampleAnswer true)])) := by
    refine .step (a := .finish (sampleAnswer true)) hagain ?_ rfl
    intro uves hpending _ e he t _
    obtain rfl := Option.some.inj hpending
    obtain rfl : e = ("t:a", none) := List.mem_singleton.mp he
    rfl
  have hretried : (aggSystem sampleConf).ReachableVia HarmlessStep (sampleState sampleRetry) :=
    .step (a := .take) hfailed trivial rfl
  have hstep : aggStep sampleConf (sampleState sampleRetry)
      (.finish fun _ _ => (false, .ofList [("S", 2)])) = some _ := rfl
  have hmatches := agg_matches_after_success sampleConf hretried rfl (fun _ _ => rfl) hstep "t:a"
    (by decide) "S"
  exact ⟨_, hstep, hmatches, rfl⟩

/-- A batch fails after its struct was entered into the copy. When it is processed
again there is no difference any more, and the struct is never written. -/
theorem failed_batch_lost :
    ¬∀ (c : AggConf Nat) (s s' : AggState Nat) (uves : UveQueue) (get_uve : GetUve Nat),
      (aggSystem c).Reachable s → s.pendingset = some uves →
      (∀ e ∈ uves.entries, (get_uve e.1 e.2).1 = false) →
      aggStep c s (.finish get_uve) = some s' →
      ∀ uv ∈ uves.entries.map Prod.fst, ∀ typ,
        s'.lredis.hget (c.agPartValues uv) typ = (content s'.ptab_info uv typ).map c.dumps := by
  intro h
  have hrun : (aggSystem sampleConf).run (sampleEvents ++ [.finish (sampleAnswer true), .take]) =
      some (sampleState (sampleEvents ++ [.finish (sampleAnswer true), .take])) := rfl
  have hreach := System.reachable_of_run hrun
  have hvalue := h sampleConf _ _ _ (sampleAnswer false) hreach rfl (fun _ _ => rfl) rfl "t:a"
    (by decide) "S"
  exact absurd hvalue (by decide)

end Sample

end TfAnalytics.OpServer
