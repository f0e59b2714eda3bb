import TfAnalytics.Lib.RingBuffer
import TfAnalytics.Lib.SlidingWindow
import Mathlib.Algebra.Order.Group.Int
import Mathlib.Data.List.GetD
import Mathlib.Tactic.IntervalCases

/-!
# SNMP collector — how often full scans start

`Controller._analyze` (snmpctrlr.py) answers an interface that went down to up with a full
scan after the delay of `MaxNinTtime.add`, and any other result of a fast scan with one at
once if `ready4full_scan`. `MaxNinTtime` is to let at most `n` scans start in a time `t`. Its
ring has the times at which it was asked, and not the times at which the scans started.

* `scans_spec`: when the scans of a run start;
* `rate_limited_iff`: the runs in which no window has more than `n` starts.

Times are seconds since the epoch.
-/

namespace TfAnalytics.SnmpCollector

open TfAnalytics.Lib

-- ---------------------------------------------------------------------------
-- MaxNinTtime
-- ---------------------------------------------------------------------------

structure MaxNinTtime where
  _n : Nat
  _t : Nat
  _default : Int
  _slots : List Int
  _pointer : Nat

namespace MaxNinTtime

/-- `MaxNinTtime(n, t)`. -/
def new (n t : Nat) : MaxNinTtime where
  _n := n
  _t := t
  _default := 0
  _slots := List.replicate n 0
  _pointer := 0

def _add (m : MaxNinTtime) (t : Nat) : MaxNinTtime :=
  { m with
    _slots := m._slots.set m._pointer t
    _pointer := (m._pointer + 1) % m._n }

/-- The delay. -/
def add (m : MaxNinTtime) (t : Nat) : Int × MaxNinTtime :=
  let diff := (t : Int) - m._slots.getD m._pointer 0
  (if diff < m._t then m._t - diff else m._default, m._add t)

/-- `self._slots[self._pointer - 1]`; the index -1 is the last slot. -/
def lastSlot (m : MaxNinTtime) : Int :=
  m._slots.getD (if m._pointer = 0 then m._slots.length - 1 else m._pointer - 1) 0

def ready4full_scan (m : MaxNinTtime) (t : Nat) : Bool × MaxNinTtime :=
  let diff := (t : Int) - m.lastSlot
  if m._t ≤ diff then (true, m._add t) else (false, m)

end MaxNinTtime

-- ---------------------------------------------------------------------------
-- The controller
-- ---------------------------------------------------------------------------

inductive ScanState where
  | full_scan
  | fast_scan
  deriving DecidableEq

structure Controller where
  _state : ScanState
  _mnt : MaxNinTtime
  _fast_scan_freq : Int

/-- The time of a call of `_analyze`, and whether an interface went down to up. -/
structure Analysis where
  time : Nat
  down2up : Bool

/-- What `_analyze` returns: whether the scan was a full one, and the time to sleep. -/
def Controller._analyze (c : Controller) (data : Analysis) : (Bool × Int) × Controller :=
  match c._state with
  | .fast_scan =>
    if data.down2up then
      ((false, (c._mnt.add data.time).1),
        { c with _state := .full_scan, _mnt := (c._mnt.add data.time).2 })
    else if (c._mnt.ready4full_scan data.time).1 then
      ((false, 0),
        { c with _state := .full_scan, _mnt := (c._mnt.ready4full_scan data.time).2 })
    else
      ((false, c._fast_scan_freq), { c with _mnt := (c._mnt.ready4full_scan data.time).2 })
  | .full_scan => ((true, c._fast_scan_freq), { c with _state := .fast_scan })

/-- A full scan: when it was decided on, and when it starts. -/
structure FullScan where
  decided : Nat
  start : Int
  deriving DecidableEq

/-- The full scan that an analysis leads to. -/
def Controller.triggered (c : Controller) (data : Analysis) : Option FullScan :=
  if c._state = .fast_scan ∧ (c._analyze data).2._state = .full_scan then
    some ⟨data.time, data.time + (c._analyze data).1.2⟩
  else none

def Controller.scans : Controller → List Analysis → List FullScan
  | _, [] => []
  | c, data :: rest => (c.triggered data).toList ++ ((c._analyze data).2).scans rest

/-- The controller before its first scan. -/
def Controller.new (n t : Nat) (fast_scan_freq : Int) : Controller where
  _state := .full_scan
  _mnt := MaxNinTtime.new n t
  _fast_scan_freq := fast_scan_freq

-- ---------------------------------------------------------------------------
-- What the slots are
-- ---------------------------------------------------------------------------

/-- The slots are the last `n` times of `history`, which are in order. -/
structure MaxNinTtime.Holds (m : MaxNinTtime) (n t : Nat) (history : List Int) : Prop where
  n_eq : m._n = n
  t_eq : m._t = t
  default : m._default = 0
  ring : RingBuffer.Holds n history ⟨m._slots, m._pointer⟩
  full : n ≤ history.length
  sorted : history.Pairwise (· ≤ ·)

section Slots

variable {m : MaxNinTtime} {n t : Nat} {history : List Int}

theorem MaxNinTtime.holds_new (n t : Nat) :
    (MaxNinTtime.new n t).Holds n t (List.replicate n 0) where
  n_eq := rfl
  t_eq := rfl
  default := rfl
  ring := by
    constructor
    · simp [new]
    · simp [new]
    · intro j hj _
      rw [List.length_replicate] at hj
      simp [new, Nat.mod_eq_of_lt hj]
  full := by simp
  sorted := by simp [List.pairwise_replicate]

theorem MaxNinTtime.Holds.pointer_lt (h : m.Holds n t history) (hn : 0 < n) : m._pointer < n := by
  have hnext : m._pointer = history.length % n := h.ring.next
  rw [hnext]
  exact Nat.mod_lt _ hn

/-- The slot at the pointer is the oldest. -/
theorem MaxNinTtime.Holds.oldest (h : m.Holds n t history) (hn : 0 < n) :
    m._slots.getD m._pointer 0 = history.getD (history.length - n) 0 := by
  have hslot := h.ring.slot h.full hn
  rw [Nat.add_zero, Nat.add_zero, Nat.mod_eq_of_lt (h.pointer_lt hn)] at hslot
  rw [List.getD_eq_getElem?_getD, List.getD_eq_getElem?_getD, hslot]

/-- The one before it is the newest. -/
theorem MaxNinTtime.Holds.newest (h : m.Holds n t history) (hn : 0 < n) :
    m.lastSlot = history.getD (history.length - 1) 0 := by
  have hslot := h.ring.slot h.full (Nat.sub_lt hn Nat.one_pos)
  have hpointer := h.pointer_lt hn
  have hfull := h.full
  have hlength : m._slots.length = n := by
    have hring : m._slots.length = min history.length n := h.ring.length
    omega
  have hindex : (m._pointer + (n - 1)) % n =
      if m._pointer = 0 then m._slots.length - 1 else m._pointer - 1 := by
    split
    · rename_i hzero
      rw [hzero, hlength, Nat.zero_add, Nat.mod_eq_of_lt (by omega)]
    · have hsum : m._pointer + (n - 1) = m._pointer - 1 + n := by omega
      rw [hsum, Nat.add_mod_right, Nat.mod_eq_of_lt (by omega)]
  have hlast : history.length - n + (n - 1) = history.length - 1 := by omega
  rw [hindex, hlast] at hslot
  rw [lastSlot, List.getD_eq_getElem?_getD, List.getD_eq_getElem?_getD, hslot]

theorem MaxNinTtime.Holds._add (h : m.Holds n t history) (hn : 0 < n) {time : Nat}
    (hlate : ∀ x ∈ history, x ≤ (time : Int)) : (m._add time).Holds n t (history ++ [(time : Int)]) where
  n_eq := h.n_eq
  t_eq := h.t_eq
  default := h.default
  ring := by
    have hpush := h.ring.push hn (time : Int)
    have hlength : ¬ m._slots.length ≤ m._pointer := by
      have hring : m._slots.length = min history.length n := h.ring.length
      have hpointer := h.pointer_lt hn
      have hfull := h.full
      omega
    have hsame : RingBuffer.push n ⟨m._slots, m._pointer⟩ (time : Int) =
        ⟨(m._add time)._slots, (m._add time)._pointer⟩ := by
      rw [RingBuffer.push, if_neg hlength, MaxNinTtime._add, h.n_eq]
    exact hsame ▸ hpush
  full := by
    have hfull := h.full
    rw [List.length_append]
    omega
  sorted := by
    rw [List.pairwise_append]
    refine ⟨h.sorted, List.pairwise_singleton _ _, fun x hx y hy => ?_⟩
    rw [List.mem_singleton.mp hy]
    exact hlate x hx

/-- With the delay a scan starts `t` after the oldest time at the earliest. -/
theorem MaxNinTtime.Holds.add_delay (h : m.Holds n t history) (hn : 0 < n) (time : Nat) :
    (time : Int) + (m.add time).1 = max (time : Int) (history.getD (history.length - n) 0 + t) := by
  show (time : Int) + (if (time : Int) - m._slots.getD m._pointer 0 < m._t then
    m._t - ((time : Int) - m._slots.getD m._pointer 0) else m._default) = _
  rw [h.oldest hn, h.t_eq, h.default]
  split <;> omega

/-- Where a scan may start at once, the newest time is at least `t` ago, and so is the
oldest. -/
theorem MaxNinTtime.Holds.ready (h : m.Holds n t history) (hn : 0 < n) {time : Nat}
    (hready : (m.ready4full_scan time).1 = true) :
    (time : Int) = max (time : Int) (history.getD (history.length - n) 0 + t) ∧
      (m.ready4full_scan time).2 = m._add time := by
  have hdiff : (m._t : Int) ≤ (time : Int) - m.lastSlot := by
    by_contra hnot
    simp [ready4full_scan, hnot] at hready
  refine ⟨?_, by rw [ready4full_scan, if_pos hdiff]⟩
  have hfull := h.full
  have horder : history.getD (history.length - n) 0 ≤ history.getD (history.length - 1) 0 := by
    have hfirst : history.length - n < history.length := by omega
    have hlast : history.length - 1 < history.length := by omega
    rw [List.getD_eq_getElem _ _ hfirst, List.getD_eq_getElem _ _ hlast]
    exact getElem_le_of_le h.sorted (by omega) hlast
  rw [h.newest hn, h.t_eq] at hdiff
  omega

end Slots

-- ---------------------------------------------------------------------------
-- When the scans start
-- ---------------------------------------------------------------------------

/-- When a scan starts that is decided on after those of `history`. -/
def startAfter (n t : Nat) (history : List Int) (time : Nat) : Int :=
  max (time : Int) (history.getD (history.length - n) 0 + t)

/-- One analysis: no scan, or one whose time goes into the ring. -/
theorem triggered_cases {c : Controller} {n t : Nat} {history : List Int}
    (h : c._mnt.Holds n t history) (hn : 0 < n) {data : Analysis}
    (hlate : ∀ x ∈ history, x ≤ (data.time : Int)) :
    (c.triggered data = none ∧ (c._analyze data).2._mnt.Holds n t history) ∨
      (c.triggered data = some ⟨data.time, startAfter n t history data.time⟩ ∧
        (c._analyze data).2._mnt.Holds n t (history ++ [(data.time : Int)])) := by
  have hadded := h._add hn hlate
  obtain ⟨state, mnt, freq⟩ := c
  obtain ⟨time, down2up⟩ := data
  cases state with
  | full_scan => exact .inl ⟨rfl, h⟩
  | fast_scan =>
    cases down2up with
    | true =>
      refine .inr ⟨?_, hadded⟩
      rw [startAfter, ← h.add_delay hn time]
      rfl
    | false =>
      cases hready : (mnt.ready4full_scan time).1 with
      | true =>
        obtain ⟨hstart, hslots⟩ := h.ready hn hready
        refine .inr ⟨?_, ?_⟩
        · rw [startAfter, ← hstart]
          simp [Controller.triggered, Controller._analyze, hready]
        · simpa [Controller._analyze, hready, hslots] using hadded
      | false =>
        have hsame : (mnt.ready4full_scan time).2 = mnt := by
          rw [MaxNinTtime.ready4full_scan] at hready ⊢
          by_cases hdiff : (mnt._t : Int) ≤ (time : Int) - mnt.lastSlot
          · simp [hdiff] at hready
          · simp [hdiff]
        refine .inl ⟨?_, ?_⟩
        · simp [Controller.triggered, Controller._analyze, hready]
        · simpa [Controller._analyze, hready, hsame] using h

/-- The times in the ring, in the end: those before and those of the scans. -/
def decisions (history : List Int) (scans : List FullScan) : List Int :=
  history ++ scans.map fun scan => (scan.decided : Int)

theorem decisions_cons (history : List Int) (scan : FullScan) (scans : List FullScan) :
    decisions history (scan :: scans) = decisions (history ++ [(scan.decided : Int)]) scans := by
  simp [decisions]

/-- Every scan starts when it is decided on, or `t` after the decision `n` before. -/
theorem scans_spec {c : Controller} {n t : Nat} {history : List Int}
    (h : c._mnt.Holds n t history) (hn : 0 < n) {analyses : List Analysis}
    (hlate : ∀ data ∈ analyses, ∀ x ∈ history, x ≤ (data.time : Int))
    (htimes : analyses.Pairwise fun a b => a.time ≤ b.time) :
    (decisions history (c.scans analyses)).Pairwise (· ≤ ·) ∧
      ∀ i (hi : i < (c.scans analyses).length), (c.scans analyses)[i].start =
        max ((c.scans analyses)[i].decided : Int)
          ((decisions history (c.scans analyses)).getD (history.length - n + i) 0 + t) := by
  induction analyses generalizing c history with
  | nil => exact ⟨by simpa [decisions, Controller.scans] using h.sorted, fun i hi => absurd hi (Nat.not_lt_zero _)⟩
  | cons data rest ih =>
    obtain ⟨hfirst, hlate⟩ := List.forall_mem_cons.mp hlate
    obtain ⟨hbefore, htimes⟩ := List.pairwise_cons.mp htimes
    rcases triggered_cases h hn hfirst with ⟨hnone, hnext⟩ | ⟨hscan, hnext⟩
    · rw [Controller.scans, hnone]
      exact ih hnext hlate htimes
    · have hlate' : ∀ later ∈ rest, ∀ x ∈ history ++ [(data.time : Int)], x ≤ (later.time : Int) := by
        intro later hlater x hx
        rcases List.mem_append.mp hx with hx | hx
        · exact hlate later hlater x hx
        · have hle := hbefore later hlater
          rw [List.mem_singleton.mp hx]
          omega
      obtain ⟨hsorted, hstarts⟩ := ih hnext hlate' htimes
      rw [Controller.scans, hscan, Option.toList_some, List.singleton_append, decisions_cons]
      refine ⟨hsorted, fun i hi => ?_⟩
      cases i with
      | zero =>
        have hold : (decisions (history ++ [(data.time : Int)])
            (((c._analyze data).2).scans rest)).getD (history.length - n) 0 =
              history.getD (history.length - n) 0 := by
          have hfull := h.full
          rw [decisions, List.append_assoc, List.getD_append _ _ _ _ (by omega)]
        rw [Nat.add_zero, hold]
        rfl
      | succ i =>
        have hindex : history.length - n + (i + 1) =
            (history ++ [(data.time : Int)]).length - n + i := by
          have hfull := h.full
          rw [List.length_append, List.length_singleton]
          omega
        rw [hindex]
        exact hstarts i (by simpa using hi)

/-- No window of length `t` has more than `n` starts. -/
def RateLimited (n t : Nat) (scans : List FullScan) : Prop :=
  ∀ x : Int, (inWindow x (t : Int) (scans.map FullScan.start)).length ≤ n

/-- Of any decisions `n` apart the second comes `t` after the first, or the third twice
that. -/
def Spaced (n t : Nat) (decisions : List Int) : Prop :=
  ∀ i (h : i + n + n < decisions.length),
    decisions[i] + t ≤ decisions[i + n] ∨ decisions[i] + 2 * t ≤ decisions[i + n + n]

/-- The scans that start with their decisions, or `t` after the decisions `n` before. -/
theorem rateLimited_iff_spaced {n t : Nat} {scans : List FullScan} {ds : List Int}
    (hsorted : ds.Pairwise (· ≤ ·)) (hlength : ds.length = n + scans.length)
    (hstart : ∀ i (hi : i < scans.length) (_ : n + i < ds.length),
      scans[i].start = max ds[n + i] (ds[i] + t)) :
    RateLimited n t scans ↔ Spaced n t ds := by
  have hinorder : (scans.map FullScan.start).Pairwise (· ≤ ·) := by
    rw [List.pairwise_map, List.pairwise_iff_getElem]
    intro i j hi hj hij
    have hold : ds[i] ≤ ds[j] := getElem_le_of_le hsorted (by omega) (by omega)
    have hnew : ds[n + i] ≤ ds[n + j] := getElem_le_of_le hsorted (by omega) (by omega)
    rw [hstart i hi (by omega), hstart j hj (by omega)]
    omega
  have hindex : ∀ i (hi : i + n + n < ds.length),
      ds[n + (i + n)] = ds[i + n + n] ∧ ds[n + i] = ds[i + n] := by
    intro i hi
    constructor <;> congr 1 <;> omega
  rw [RateLimited, length_inWindow_le_iff hinorder]
  constructor
  · intro hfar i hi
    have hnear := hfar i (by rw [List.length_map]; omega)
    rw [List.getElem_map, List.getElem_map, hstart i (by omega) (by omega),
      hstart (i + n) (by omega) (by omega), (hindex i hi).1, (hindex i hi).2] at hnear
    omega
  · intro hspaced i hi
    rw [List.length_map] at hi
    have hnear := hspaced i (by omega)
    have hold : ds[i + n] ≤ ds[i + n + n] := getElem_le_of_le hsorted (by omega) (by omega)
    rw [List.getElem_map, List.getElem_map, hstart i (by omega) (by omega),
      hstart (i + n) (by omega) (by omega), (hindex i (by omega)).1, (hindex i (by omega)).2]
    omega

/-- Full scans are limited in a run of the controller if and only if the decisions are
spaced, where there are `n` decisions at 0 before the first one. -/
theorem rate_limited_iff {n : Nat} (hn : 0 < n) (t : Nat) (fast_scan_freq : Int)
    {analyses : List Analysis} (htimes : analyses.Pairwise fun a b => a.time ≤ b.time) :
    RateLimited n t ((Controller.new n t fast_scan_freq).scans analyses) ↔
      Spaced n t (decisions (List.replicate n 0)
        ((Controller.new n t fast_scan_freq).scans analyses)) := by
  have hzero : ∀ data ∈ analyses, ∀ x ∈ List.replicate n (0 : Int), x ≤ (data.time : Int) := by
    intro data _ x hx
    rw [List.eq_of_mem_replicate hx]
    omega
  obtain ⟨hsorted, hstarts⟩ := scans_spec (c := Controller.new n t fast_scan_freq)
    (MaxNinTtime.holds_new n t) hn hzero htimes
  refine rateLimited_iff_spaced hsorted (by simp [decisions]) fun i hi hdecided => ?_
  have hindex : (List.replicate n (0 : Int)).length - n + i = i := by simp
  rw [hstarts i hi, hindex, List.getD_eq_getElem _ _ (by omega)]
  simp [decisions]

/-- With at most one scan in ten seconds the second one is put off from 101 to 110, and the
third, at 111, is not. -/
def delayedRun : List Analysis :=
  [⟨90, false⟩, ⟨100, true⟩, ⟨100, false⟩, ⟨101, true⟩, ⟨110, false⟩, ⟨111, true⟩]

theorem not_rate_limited :
    ¬ ∀ (n : Nat) (_ : 0 < n) (t : Nat) (fast_scan_freq : Int) (analyses : List Analysis),
      (analyses.Pairwise fun a b => a.time ≤ b.time) →
        RateLimited n t ((Controller.new n t fast_scan_freq).scans analyses) := by
  intro h
  have hlimited := h 1 Nat.one_pos 10 5 delayedRun (by decide) 110
  revert hlimited
  decide

/-- The scan decided on at 105 is put off to 110, and the next one comes late enough. -/
def spacedRun : List Analysis :=
  [⟨90, false⟩, ⟨100, true⟩, ⟨100, false⟩, ⟨105, true⟩, ⟨110, false⟩, ⟨120, true⟩]

theorem rate_limited_sample :
    ((Controller.new 1 10 5).scans spacedRun).map FullScan.start = [100, 110, 120] ∧
      Spaced 1 10 (decisions (List.replicate 1 0) ((Controller.new 1 10 5).scans spacedRun)) ∧
      RateLimited 1 10 ((Controller.new 1 10 5).scans spacedRun) := by
  have hspaced :
      Spaced 1 10 (decisions (List.replicate 1 0) ((Controller.new 1 10 5).scans spacedRun)) := by
    have hdecisions : decisions (List.replicate 1 0) ((Controller.new 1 10 5).scans spacedRun) =
        [0, 100, 105, 120] := by decide
    rw [hdecisions]
    intro i hi
    have hlt : i < 2 := by
      simp only [List.length_cons, List.length_nil] at hi
      omega
    interval_cases i
    · exact .inl (by simp)
    · -- 105 is too early after 100, and 120 is the third decision
      exact .inr (by simp)
  exact ⟨by decide, hspaced, (rate_limited_iff Nat.one_pos 10 5 (by decide)).mpr hspaced⟩

end TfAnalytics.SnmpCollector
