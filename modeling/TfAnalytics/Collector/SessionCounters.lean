import TfAnalytics.Lib.OrderedMap
import Mathlib

/-!
# Collector — increments of session counters

The counters in the syslogs of a session are cumulative. With process-vol-update
`StructuredSyslogUVESummarizeData` (structured_syslog_server.cc) reports
differences: it keeps the last counters of every session in
`session_config_map_` (structured_syslog_config.cc), discards a syslog that is
older than these and removes them when the session is closed.

A run is any sequence of syslogs, of this session and of others, which share the
map and its limit.

* `total_emittedBy`: over one syslog, what is emitted is the change of the baseline;
* `total_emitted`: over a run with its CLOSE, the sum of the differences is the
  CLOSE and what is stored at the end;
* `increments_iff`: exactly which runs count every byte and packet once.
-/

namespace TfAnalytics.Collector

open TfAnalytics.Lib

-- ---------------------------------------------------------------------------
-- Syslogs and the session map
-- ---------------------------------------------------------------------------

/-- The cumulative counters of a syslog. -/
inductive Counter where
  | total_bytes
  | bytes_from_client
  | bytes_from_server
  | packets_from_server
  | packets_from_client
deriving DecidableEq

instance : Fintype Counter where
  elems := {.total_bytes, .bytes_from_client, .bytes_from_server, .packets_from_server,
    .packets_from_client}
  complete c := by cases c <;> decide

/-- A counter value: a non-negative `int64_t`, so that differences are exact. -/
abbrev Count := Fin (2 ^ 63)

abbrev Counters := Counter → Count

/-- The fields of a parsed syslog that decide its counters; a field that is
absent has the default `GetMapVals` or `GetMapVal` is given. -/
structure SessionSyslog where
  tag : Option String
  process_vol_update : Option String
  tenant : Option String
  location : Option String
  device : Option String
  session_id_32 : Option String
  counters : Counter → Option Count

/-- `boost::iequals`. -/
def iequals (a b : String) : Bool := a.toList.map Char.toLower = b.toList.map Char.toLower

namespace SessionSyslog

def is_close (v : SessionSyslog) : Bool := v.tag.getD "UNKNOWN" = "APPTRACK_SESSION_CLOSE"

def is_vol_update (v : SessionSyslog) : Bool :=
  v.tag.getD "UNKNOWN" = "APPTRACK_SESSION_VOL_UPDATE"

def processVolUpdate (v : SessionSyslog) : Bool :=
  iequals (v.process_vol_update.getD "False") "True"

def uvename (v : SessionSyslog) : String :=
  v.tenant.getD "UNKNOWN" ++ "::" ++ v.location.getD "UNKNOWN" ++ "::" ++
    v.device.getD "UNKNOWN"

def session_unique_key (v : SessionSyslog) : String :=
  v.uvename ++ "::" ++ v.session_id_32.getD "-1"

/-- `GetMapVal(v, name, 0)`. -/
def count (v : SessionSyslog) (c : Counter) : Count := (v.counters c).getD 0

end SessionSyslog

abbrev SessionConfigMap := OrderedMap String Counters

/-- Replaces the counters of a session; a new session is refused at the limit. -/
def AddSyslogSessionCounter (limit : Nat) (m : SessionConfigMap) (key : String)
    (counters : Counters) : Option SessionConfigMap :=
  if m.find? key = none ∧ limit ≤ m.size then none else some (m.assign key counters)

/-- The syslog is older than the counters stored. Two of the five are compared. -/
def isOld (prev : Counters) (v : SessionSyslog) : Bool :=
  v.count .total_bytes < prev .total_bytes ∨
    v.count .packets_from_client < prev .packets_from_client

def diff (prev : Counters) (v : SessionSyslog) (c : Counter) : Int :=
  ((v.count c : Nat) : Int) - ((prev c : Nat) : Int)

/-- `StructuredSyslogUVESummarizeData`, as far as the counters go: the map
afterwards and the differences reported, if the syslog is not rejected. -/
def StructuredSyslogUVESummarizeData (limit : Nat) (m : SessionConfigMap) (v : SessionSyslog) :
    SessionConfigMap × Option (Counter → Int) :=
  if v.processVolUpdate = false ∧ v.is_vol_update = true then (m, none)
  else
    let key := v.session_unique_key
    let found := m.find? key
    let prev := found.getD fun _ => 0
    let process_curr_counter := !(found.isSome && isOld prev v)
    let m := if found.isSome && v.is_close then m.erase key else m
    let differences := if process_curr_counter then diff prev v else fun _ => 0
    if v.is_close = false ∧ v.processVolUpdate = true ∧ process_curr_counter = true then
      match AddSyslogSessionCounter limit m key v.count with
      | none => (m, none)
      | some m => (m, some differences)
    else (m, some differences)

/-- The differences reported for one session along a run. -/
def emitted (limit : Nat) (key : String) :
    SessionConfigMap → List SessionSyslog → List (Counter → Int)
  | _, [] => []
  | m, v :: vs =>
    let (m', d) := StructuredSyslogUVESummarizeData limit m v
    (if v.session_unique_key = key then d.toList else []) ++ emitted limit key m' vs

/-- The map at the end of a run. -/
def sessionMapAfter (limit : Nat) (m : SessionConfigMap) (vs : List SessionSyslog) :
    SessionConfigMap :=
  vs.foldl (fun m v => (StructuredSyslogUVESummarizeData limit m v).1) m

-- ---------------------------------------------------------------------------
-- One syslog
-- ---------------------------------------------------------------------------

variable (limit : Nat) {key : String}

/-- The counters stored for the session, 0 if there are none. -/
def baseline (m : SessionConfigMap) (key : String) : Counters := (m.find? key).getD fun _ => 0

/-- An update of the session, as process-vol-update accepts it. -/
def IsUpdate (key : String) (v : SessionSyslog) : Prop :=
  v.session_unique_key = key ∧ v.processVolUpdate = true ∧ v.is_close = false

/-- The CLOSE of the session. -/
def IsClose (key : String) (v : SessionSyslog) : Prop :=
  v.session_unique_key = key ∧ v.processVolUpdate = true ∧ v.is_close = true

/-- The update is refused because the map is full. -/
def Refused (limit : Nat) (m : SessionConfigMap) (key : String) : Prop :=
  m.find? key = none ∧ limit ≤ m.size

/-- The update is discarded because the stored counters are newer. -/
def Discarded (m : SessionConfigMap) (key : String) (v : SessionSyslog) : Prop :=
  ∃ prev, m.find? key = some prev ∧ isOld prev v = true

/-- All that an update can do. -/
theorem summarize_update (m : SessionConfigMap) {v : SessionSyslog} (hv : IsUpdate key v) :
    (Refused limit m key ∧ StructuredSyslogUVESummarizeData limit m v = (m, none)) ∨
      (Discarded m key v ∧
        StructuredSyslogUVESummarizeData limit m v = (m, some fun _ => 0)) ∨
      (¬Refused limit m key ∧ ¬Discarded m key v ∧
        StructuredSyslogUVESummarizeData limit m v =
          (m.assign key v.count, some (diff (baseline m key) v))) := by
  obtain ⟨rfl, hvol, hclose⟩ := hv
  unfold StructuredSyslogUVESummarizeData Refused Discarded baseline AddSyslogSessionCounter
  cases hfind : m.find? v.session_unique_key with
  | none =>
    by_cases hfull : limit ≤ m.size
    · exact .inl ⟨⟨rfl, hfull⟩, by simp [hvol, hclose, hfind, hfull]⟩
    · exact .inr (.inr ⟨fun h => hfull h.2, by simp, by simp [hvol, hclose, hfind, hfull]⟩)
  | some prev =>
    by_cases hold : isOld prev v = true
    · exact .inr (.inl ⟨⟨prev, rfl, hold⟩, by simp [hvol, hclose, hfind, hold]⟩)
    · exact .inr (.inr ⟨by simp, by simpa using hold, by simp [hvol, hclose, hfind, hold]⟩)

/-- A CLOSE with the newest counters reports what is missing and clears the
baseline. -/
theorem summarize_close (m : SessionConfigMap) {v : SessionSyslog} (hv : IsClose key v)
    (hnewest : ∀ c, baseline m key c ≤ v.count c) :
    ((StructuredSyslogUVESummarizeData limit m v).1.find? key = none) ∧
      (StructuredSyslogUVESummarizeData limit m v).2 = some (diff (baseline m key) v) := by
  obtain ⟨rfl, hvol, hclose⟩ := hv
  unfold StructuredSyslogUVESummarizeData baseline at *
  cases hfind : m.find? v.session_unique_key with
  | none => simp [hvol, hclose, hfind]
  | some prev =>
    have hold : isOld prev v = false := by
      rw [hfind] at hnewest
      have htotal := not_lt.mpr (hnewest .total_bytes)
      have hpackets := not_lt.mpr (hnewest .packets_from_client)
      rw [Option.getD_some] at htotal hpackets
      simp only [isOld, htotal, hpackets, or_self, decide_false]
    simp [hvol, hclose, hfind, hold, OrderedMap.find?_erase]

theorem find?_of_add {limit : Nat} {m m' : SessionConfigMap} {other : String} {counters : Counters}
    (h : AddSyslogSessionCounter limit m other counters = some m') (hne : other ≠ key) :
    m'.find? key = m.find? key := by
  unfold AddSyslogSessionCounter at h
  split at h
  · cases h
  · injection h with h
    rw [← h, OrderedMap.find?_assign, if_neg hne.symm]

/-- The syslogs of other sessions leave this session's counters alone. -/
theorem summarize_other (m : SessionConfigMap) {v : SessionSyslog}
    (hv : v.session_unique_key ≠ key) :
    (StructuredSyslogUVESummarizeData limit m v).1.find? key = m.find? key := by
  have herase : ∀ b : Bool, (if b then m.erase v.session_unique_key else m).find? key =
      m.find? key := by
    intro b
    cases b with
    | false => rfl
    | true => exact (OrderedMap.find?_erase ..).trans (if_neg hv.symm)
  unfold StructuredSyslogUVESummarizeData
  split
  · rfl
  · dsimp only
    split
    · split
      · exact herase _
      · rename_i m' hadd
        exact (find?_of_add hadd hv).trans (herase _)
    · exact herase _

-- ---------------------------------------------------------------------------
-- Whole runs
-- ---------------------------------------------------------------------------

/-- The differences of one syslog for the session. -/
def emittedBy (limit : Nat) (key : String) (m : SessionConfigMap) (v : SessionSyslog) :
    List (Counter → Int) :=
  if v.session_unique_key = key then (StructuredSyslogUVESummarizeData limit m v).2.toList else []

/-- The sum of the differences for one counter. -/
def total (ds : List (Counter → Int)) (c : Counter) : Int := (ds.map fun d => d c).sum

@[simp] theorem total_nil (c : Counter) : total [] c = 0 := rfl

theorem total_append (ds es : List (Counter → Int)) (c : Counter) :
    total (ds ++ es) c = total ds c + total es c := by
  simp [total]

theorem emitted_cons (m : SessionConfigMap) (v : SessionSyslog) (vs : List SessionSyslog) :
    emitted limit key m (v :: vs) = emittedBy limit key m v ++
      emitted limit key (StructuredSyslogUVESummarizeData limit m v).1 vs := rfl

theorem baseline_assign (m : SessionConfigMap) (counters : Counters) :
    baseline (m.assign key counters) key = counters := by
  rw [baseline, OrderedMap.find?_assign, if_pos rfl, Option.getD_some]

/-- Over a syslog that is not the CLOSE, what is emitted is the change of the
baseline. -/
theorem total_emittedBy (m : SessionConfigMap) {v : SessionSyslog}
    (hv : v.session_unique_key = key → IsUpdate key v) (c : Counter) :
    total (emittedBy limit key m v) c =
      ((baseline (StructuredSyslogUVESummarizeData limit m v).1 key c : Nat) : Int) -
        ((baseline m key c : Nat) : Int) := by
  by_cases hkey : v.session_unique_key = key
  · rw [emittedBy, if_pos hkey]
    rcases summarize_update limit m (hv hkey) with ⟨-, h⟩ | ⟨-, h⟩ | ⟨-, -, h⟩
    · simp [h]
    · simp [h, total]
    · simp [h, total, diff, baseline_assign]
  · rw [emittedBy, if_neg hkey, baseline, baseline, summarize_other limit m hkey, total_nil,
      sub_self]

/-- The same for a run of such syslogs. -/
theorem total_emitted (m : SessionConfigMap) {vs : List SessionSyslog}
    (hvs : ∀ v ∈ vs, v.session_unique_key = key → IsUpdate key v) (c : Counter) :
    total (emitted limit key m vs) c =
      ((baseline (sessionMapAfter limit m vs) key c : Nat) : Int) -
        ((baseline m key c : Nat) : Int) := by
  induction vs generalizing m with
  | nil => simp [emitted, sessionMapAfter]
  | cons v vs ih =>
    have ih := ih (StructuredSyslogUVESummarizeData limit m v).1
      (fun w hw => hvs w (List.mem_cons_of_mem v hw))
    rw [emitted_cons, total_append, ih, total_emittedBy limit m (hvs v List.mem_cons_self)]
    simp only [sessionMapAfter, List.foldl_cons]
    omega

theorem emitted_append (m : SessionConfigMap) (vs ws : List SessionSyslog) :
    emitted limit key m (vs ++ ws) =
      emitted limit key m vs ++ emitted limit key (sessionMapAfter limit m vs) ws := by
  induction vs generalizing m with
  | nil => rfl
  | cons v vs ih =>
    rw [List.cons_append, emitted_cons, emitted_cons, ih, List.append_assoc]
    rfl

-- ---------------------------------------------------------------------------
-- When every byte and packet is counted once
-- ---------------------------------------------------------------------------

/-- The session's syslogs each meet `P` in the state they are received in. -/
def EachMeets (limit : Nat) (key : String) (P : SessionConfigMap → SessionSyslog → Prop) :
    SessionConfigMap → List SessionSyslog → Prop
  | _, [] => True
  | m, v :: vs =>
    (v.session_unique_key = key → P m v) ∧
      EachMeets limit key P (StructuredSyslogUVESummarizeData limit m v).1 vs

/-- An update that is not discarded is behind the stored counters in none of
the five. -/
def NotBehind (key : String) (m : SessionConfigMap) (v : SessionSyslog) : Prop :=
  ∀ prev, m.find? key = some prev → isOld prev v = false → ∀ c, prev c ≤ v.count c

/-- A late update finds the map full, or has counted nothing. -/
def Harmless (limit : Nat) (key : String) (m : SessionConfigMap) (v : SessionSyslog) : Prop :=
  Refused limit m key ∨ ∀ c, v.count c = 0

def NonNegative (ds : List (Counter → Int)) : Prop := ∀ d ∈ ds, ∀ c, 0 ≤ d c

theorem nonNegative_append {ds es : List (Counter → Int)} :
    NonNegative (ds ++ es) ↔ NonNegative ds ∧ NonNegative es := by
  simp only [NonNegative]
  exact List.forall_mem_append

theorem NonNegative.total_nonneg {ds : List (Counter → Int)} (h : NonNegative ds) (c : Counter) :
    0 ≤ total ds c := by
  apply List.sum_nonneg
  intro x hx
  obtain ⟨d, hd, rfl⟩ := List.mem_map.mp hx
  exact h d hd c

/-- The differences of an update that is taken. -/
theorem nonNegative_diff_iff (m : SessionConfigMap) {v : SessionSyslog}
    (hd : ¬Discarded m key v) :
    NonNegative (some (diff (baseline m key) v)).toList ↔ NotBehind key m v := by
  have hdiff : NonNegative (some (diff (baseline m key) v)).toList ↔
      ∀ c, baseline m key c ≤ v.count c := by
    simp [NonNegative, diff]
  rw [hdiff, baseline, NotBehind]
  cases hfind : m.find? key with
  | none => simp
  | some prev =>
    have hold : isOld prev v = false := by
      by_contra h
      exact hd ⟨prev, hfind, by simpa using h⟩
    simp [hold]

/-- Before the CLOSE, no difference is negative exactly if no update that is
taken is behind the baseline. -/
theorem nonNegative_updates_iff (m : SessionConfigMap) {vs : List SessionSyslog}
    (hvs : ∀ v ∈ vs, v.session_unique_key = key → IsUpdate key v) :
    NonNegative (emitted limit key m vs) ↔ EachMeets limit key (NotBehind key) m vs := by
  induction vs generalizing m with
  | nil => simp [emitted, NonNegative, EachMeets]
  | cons v vs ih =>
    rw [emitted_cons, nonNegative_append, EachMeets,
      ih _ (fun w hw => hvs w (List.mem_cons_of_mem v hw))]
    refine and_congr_left' ?_
    by_cases hkey : v.session_unique_key = key
    · rw [emittedBy, if_pos hkey]
      rcases summarize_update limit m (hvs v List.mem_cons_self hkey) with
        ⟨hr, h⟩ | ⟨⟨prev, hp, hold⟩, h⟩ | ⟨-, hd, h⟩
      · simp [h, NonNegative, NotBehind, hr.1]
      · simp [h, NonNegative, NotBehind, hp, hold]
      · rw [h]
        exact (nonNegative_diff_iff m hd).trans (imp_iff_right hkey).symm
    · simp [emittedBy, hkey, NonNegative]

/-- After the CLOSE, nothing is counted again exactly if every update is
harmless. -/
theorem late_updates_iff (m : SessionConfigMap) (hm : baseline m key = fun _ => 0)
    {vs : List SessionSyslog} (hvs : ∀ v ∈ vs, v.session_unique_key = key → IsUpdate key v) :
    (NonNegative (emitted limit key m vs) ∧
      ∀ c, baseline (sessionMapAfter limit m vs) key c = 0) ↔
      EachMeets limit key (Harmless limit key) m vs := by
  induction vs generalizing m with
  | nil => simp [emitted, NonNegative, EachMeets, sessionMapAfter, hm]
  | cons v vs ih =>
    have hrest := fun w hw => hvs w (List.mem_cons_of_mem v hw)
    rw [emitted_cons, nonNegative_append, EachMeets]
    by_cases hkey : v.session_unique_key = key
    · have hafter : sessionMapAfter limit m (v :: vs) =
          sessionMapAfter limit (StructuredSyslogUVESummarizeData limit m v).1 vs := rfl
      rw [hafter, emittedBy, if_pos hkey]
      rcases summarize_update limit m (hvs v List.mem_cons_self hkey) with
        ⟨hr, h⟩ | ⟨⟨prev, hp, hold⟩, -⟩ | ⟨hr, -, h⟩
      · have ih := ih m hm hrest
        simp only [h, Option.toList_none, Harmless, hr, true_or, implies_true, true_and, ← ih]
        simp [NonNegative]
      · -- nothing is older than no counters at all
        have hprev : prev = fun _ => 0 := by
          rw [← hm, baseline, hp, Option.getD_some]
        rw [hprev] at hold
        simp [isOld] at hold
      · rw [h]
        constructor
        · rintro ⟨⟨-, hnn⟩, hend⟩
          have hzero : v.count = fun _ => 0 := by
            funext c
            have hsum := total_emitted limit (m.assign key v.count) hrest c
            have hpos : 0 ≤ total (emitted limit key (m.assign key v.count) vs) c :=
              hnn.total_nonneg c
            rw [hend c, baseline_assign] at hsum
            apply Fin.ext
            simp only [Fin.val_zero] at hsum ⊢
            omega
          have hm' : baseline (m.assign key v.count) key = fun _ => 0 := by
            rw [baseline_assign, hzero]
          exact ⟨fun _ => .inr (congrFun hzero), (ih _ hm' hrest).mp ⟨hnn, hend⟩⟩
        · rintro ⟨hv, hmeets⟩
          have hzero : v.count = fun _ => 0 := funext ((hv hkey).resolve_left hr)
          have hm' : baseline (m.assign key v.count) key = fun _ => 0 := by
            rw [baseline_assign, hzero]
          obtain ⟨hnn, hend⟩ := (ih _ hm' hrest).mpr hmeets
          refine ⟨⟨?_, hnn⟩, hend⟩
          simp [NonNegative, diff, hm]
    · have hm' : baseline (StructuredSyslogUVESummarizeData limit m v).1 key = fun _ => 0 := by
        rw [baseline, summarize_other limit m hkey]
        exact hm
      have ih := ih _ hm' hrest
      simp only [emittedBy, hkey, if_false, false_implies, true_and, ← ih]
      simp [NonNegative, sessionMapAfter]

/-- The session's cumulative counters grow in the order its syslogs are sent,
the CLOSE last. `received` are the others, in the order they arrive. -/
def SentInOrder (key : String) (received : List SessionSyslog) (close : SessionSyslog) : Prop :=
  ∃ sent, sent.Perm (received.filter fun v => v.session_unique_key = key) ∧
    (sent ++ [close]).Pairwise fun v w => ∀ c, v.count c ≤ w.count c

theorem SentInOrder.le_close {received : List SessionSyslog} {close : SessionSyslog}
    (h : SentInOrder key received close) {v : SessionSyslog} (hv : v ∈ received)
    (hkey : v.session_unique_key = key) (c : Counter) : v.count c ≤ close.count c := by
  obtain ⟨sent, hperm, hsorted⟩ := h
  have hmem : v ∈ sent := hperm.mem_iff.mpr (List.mem_filter.mpr ⟨hv, by simpa using hkey⟩)
  exact (List.pairwise_append.mp hsorted).2.2 v hmem close (List.mem_singleton_self _) c

/-- The largest value of a counter received for the session. -/
def largest (key : String) (vs : List SessionSyslog) (c : Counter) : Nat :=
  ((vs.filter fun v => v.session_unique_key = key).map fun v => (v.count c : Nat)).foldr max 0

theorem largest_eq {pre post : List SessionSyslog} {close : SessionSyslog}
    (hclose : IsClose key close) (hsent : SentInOrder key (pre ++ post) close) (c : Counter) :
    largest key (pre ++ close :: post) c = (close.count c : Nat) := by
  have hle : ∀ v ∈ pre ++ close :: post, v.session_unique_key = key →
      (v.count c : Nat) ≤ (close.count c : Nat) := by
    intro v hv hkey
    rw [List.mem_append, List.mem_cons] at hv
    rcases hv with hv | rfl | hv
    · exact hsent.le_close (List.mem_append_left post hv) hkey c
    · exact le_refl _
    · exact hsent.le_close (List.mem_append_right pre hv) hkey c
  have hmem : close ∈ (pre ++ close :: post).filter fun v => v.session_unique_key = key := by
    simp [hclose.1]
  apply le_antisymm
  · refine List.max_le_of_forall_le (α := Nat) _ _ ?_
    intro n hn
    obtain ⟨v, hv, rfl⟩ := List.mem_map.mp hn
    rw [List.mem_filter] at hv
    exact hle v hv.1 (by simpa using hv.2)
  · exact List.le_max_of_le (α := Nat) (List.mem_map.mpr ⟨close, hmem, rfl⟩) (le_refl _)

/-- The stored counters are those of a syslog received before, so the CLOSE is
ahead of them. -/
theorem baseline_le (m : SessionConfigMap) {vs : List SessionSyslog} {top : Counters}
    (hvs : ∀ v ∈ vs, v.session_unique_key = key → IsUpdate key v ∧ ∀ c, v.count c ≤ top c)
    (hm : ∀ c, baseline m key c ≤ top c) (c : Counter) :
    baseline (sessionMapAfter limit m vs) key c ≤ top c := by
  induction vs generalizing m with
  | nil => exact hm c
  | cons v vs ih =>
    refine ih _ (fun w hw => hvs w (List.mem_cons_of_mem v hw)) ?_
    by_cases hkey : v.session_unique_key = key
    · obtain ⟨hupd, hle⟩ := hvs v List.mem_cons_self hkey
      rcases summarize_update limit m hupd with ⟨-, h⟩ | ⟨-, h⟩ | ⟨-, -, h⟩
      · simpa [h] using hm
      · simpa [h] using hm
      · simpa [h, baseline_assign] using hle
    · simpa [baseline, summarize_other limit m hkey] using hm

/-- For a new session whose syslogs arrive in any order, among those of any other
sessions: every difference is non-negative and each counter's differences add up
to its largest value, if and only if no update before the CLOSE that passes the
age test is behind the stored counters in the three others, and every update after
the CLOSE is refused by a full map or counts nothing. -/
theorem increments_iff (m : SessionConfigMap) (hnew : m.find? key = none)
    (pre post : List SessionSyslog) (close : SessionSyslog) (hclose : IsClose key close)
    (hupdates : ∀ v ∈ pre ++ post, v.session_unique_key = key → IsUpdate key v)
    (hsent : SentInOrder key (pre ++ post) close) :
    (NonNegative (emitted limit key m (pre ++ close :: post)) ∧
      ∀ c, total (emitted limit key m (pre ++ close :: post)) c =
        largest key (pre ++ close :: post) c) ↔
      EachMeets limit key (NotBehind key) m pre ∧
        EachMeets limit key (Harmless limit key) (sessionMapAfter limit m (pre ++ [close]))
          post := by
  have hpre := fun v hv => hupdates v (List.mem_append_left post hv)
  have hpost := fun v hv => hupdates v (List.mem_append_right pre hv)
  have hzero : baseline m key = fun _ => 0 := by
    rw [baseline, hnew, Option.getD_none]
  -- the CLOSE is ahead of what is stored, since it was sent last
  have hahead : ∀ c, baseline (sessionMapAfter limit m pre) key c ≤ close.count c :=
    baseline_le limit m
      (fun v hv hkey => ⟨hpre v hv hkey, hsent.le_close (List.mem_append_left post hv) hkey⟩)
      (fun c => by rw [hzero]; exact Fin.zero_le _)
  obtain ⟨hcleared, hlast⟩ := summarize_close limit (sessionMapAfter limit m pre) hclose hahead
  have hafter : sessionMapAfter limit m (pre ++ [close]) =
      (StructuredSyslogUVESummarizeData limit (sessionMapAfter limit m pre) close).1 := by
    simp [sessionMapAfter]
  rw [← hafter] at hcleared
  have hfresh : baseline (sessionMapAfter limit m (pre ++ [close])) key = fun _ => 0 := by
    rw [baseline, hcleared, Option.getD_none]
  -- the run is the updates before, the CLOSE, and the updates behind it
  have hrun : emitted limit key m (pre ++ close :: post) = emitted limit key m pre ++
      (diff (baseline (sessionMapAfter limit m pre) key) close ::
        emitted limit key (sessionMapAfter limit m (pre ++ [close])) post) := by
    rw [emitted_append, emitted_cons, emittedBy, if_pos hclose.1, hlast, hafter]
    rfl
  -- the total is what the CLOSE counts and what is stored again in the end
  have hsum : ∀ c, total (emitted limit key m (pre ++ close :: post)) c =
      (close.count c : Nat) + ((baseline (sessionMapAfter limit
        (sessionMapAfter limit m (pre ++ [close])) post) key c : Nat) : Int) := by
    intro c
    have hp := total_emitted limit m hpre c
    have hq := total_emitted limit (sessionMapAfter limit m (pre ++ [close])) hpost c
    rw [hrun, total_append, hp]
    simp only [total, List.map_cons, List.sum_cons] at hq ⊢
    rw [hq, hfresh, hzero]
    simp only [diff, Fin.val_zero]
    omega
  have hdiff : NonNegative [diff (baseline (sessionMapAfter limit m pre) key) close] := by
    simpa [NonNegative, diff] using hahead
  -- of the differences only those of the updates may be negative
  have hnn : NonNegative (emitted limit key m (pre ++ close :: post)) ↔
      NonNegative (emitted limit key m pre) ∧
        NonNegative (emitted limit key (sessionMapAfter limit m (pre ++ [close])) post) := by
    rw [hrun, nonNegative_append, ← List.singleton_append, nonNegative_append]
    simp only [hdiff, true_and]
  rw [← nonNegative_updates_iff limit m hpre, ← late_updates_iff limit _ hfresh hpost, hnn]
  simp only [hsum, largest_eq hclose hsent, and_assoc, and_congr_right_iff]
  intro _ _
  apply forall_congr'
  intro c
  rw [← Fin.val_eq_zero_iff]
  omega

/-- A syslog of one session of one device. -/
def sampleSyslog (tag : String) (counters : Counter → Option Count) : SessionSyslog where
  tag := some tag
  process_vol_update := some "True"
  tenant := some "t"
  location := some "l"
  device := some "d"
  session_id_32 := some "7"
  counters := counters

def sampleUpdate (n : Count) : SessionSyslog :=
  sampleSyslog "APPTRACK_SESSION_VOL_UPDATE" fun _ => some n

def sampleClose (n : Count) : SessionSyslog :=
  sampleSyslog "APPTRACK_SESSION_CLOSE" fun _ => some n

/-- Updates of 10 and 5 out of order, then the CLOSE with 12. -/
theorem increments_sample :
    NonNegative (emitted 1 "t::l::d::7" .empty [sampleUpdate 10, sampleUpdate 5, sampleClose 12]) ∧
      ∀ c, total (emitted 1 "t::l::d::7" .empty
        [sampleUpdate 10, sampleUpdate 5, sampleClose 12]) c =
        largest "t::l::d::7" [sampleUpdate 10, sampleUpdate 5, sampleClose 12] c :=
  (increments_iff 1 .empty rfl [sampleUpdate 10, sampleUpdate 5] [] (sampleClose 12)
    (by refine ⟨?_, ?_, ?_⟩ <;> decide)
    (by
      intro v hv hkey
      simp only [List.append_nil, List.mem_cons, List.not_mem_nil, or_false] at hv
      rcases hv with rfl | rfl <;> refine ⟨?_, ?_, ?_⟩ <;> decide)
    ⟨[sampleUpdate 5, sampleUpdate 10], List.Perm.swap _ _ _, by decide⟩).mpr
    ⟨by
      refine ⟨fun _ prev hprev => ?_, fun _ prev hprev hold => ?_, trivial⟩
      · cases hprev
      · have hp : prev = (sampleUpdate 10).count := Option.some.inj (hprev.symm.trans rfl)
        subst hp
        revert hold
        decide, trivial⟩

/-- An update that arrives after the CLOSE is counted again. -/
theorem late_update_counted_twice :
    ¬∀ (limit : Nat) (key : String) (m : SessionConfigMap) (_ : m.find? key = none)
      (pre post : List SessionSyslog) (close : SessionSyslog) (_ : IsClose key close)
      (_ : ∀ v ∈ pre ++ post, v.session_unique_key = key → IsUpdate key v)
      (_ : SentInOrder key (pre ++ post) close),
      NonNegative (emitted limit key m (pre ++ close :: post)) ∧
        ∀ c, total (emitted limit key m (pre ++ close :: post)) c =
          largest key (pre ++ close :: post) c := by
  intro h
  have h := (h 1 "t::l::d::7" .empty rfl [] [sampleUpdate 10] (sampleClose 12)
    (by refine ⟨?_, ?_, ?_⟩ <;> decide)
    (by
      intro v hv hkey
      simp only [List.nil_append, List.mem_cons, List.not_mem_nil, or_false] at hv
      subst hv
      refine ⟨?_, ?_, ?_⟩ <;> decide)
    ⟨[sampleUpdate 10], List.Perm.refl _, by decide⟩).2 .total_bytes
  revert h
  decide

end TfAnalytics.Collector
