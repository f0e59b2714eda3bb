import TfAnalytics.Lib.Dict
import TfAnalytics.Lib.Transition
import TfAnalytics.SnmpCollector.MaxNinTtime

/-!
# SNMP collector — the status of the interfaces

Between two full scans `Controller._analyze` (snmpctrlr.py) only asks for `ifOperStatus`. It
keeps the last status of every interface, with the time at which it was read, and compares each
new reading with it: an interface that comes up starts a full scan, one that goes down or that
says nothing for three scans is published at once.

* `recorded_chk_if_change`: what a fast scan leaves of an interface;
* `down2up_iff`, `up2down_iff`: what it finds;
* `scans_refines`: when full scans start is as the controller alone decides;
* `ups_published`: what was published is what is recorded, as to which interfaces are up;
* `published_up_recent`: an interface that is published as up was read not long ago.

Times are seconds since the epoch.
-/

namespace TfAnalytics.SnmpCollector.InterfaceStatus

open TfAnalytics.Lib

-- ---------------------------------------------------------------------------
-- What the scanner returns
-- ---------------------------------------------------------------------------

/-- A row of `ifTable`. -/
structure IfEntry where
  ifIndex : Nat
  ifOperStatus : Option Nat
  ifDescr : Option String

structure IfMib where
  ifTable : Option (List IfEntry)

/-- `data[dev]['snmp']`: a full scan has the MIBs, a fast one `ifOperStatus` alone. -/
structure Snmp where
  ifMib : Option IfMib
  ifOperStatus : Option (Dict Nat Nat)

structure DeviceData where
  snmp : Option Snmp

abbrev ScanData := Dict String DeviceData

/-- Device, interface: the status and when it was read. -/
abbrev IfData := Dict String (Dict Nat (Nat × Nat))

/-- Device, interface: a status. -/
abbrev StatusDict := Dict String (Dict Nat Nat)

-- ---------------------------------------------------------------------------
-- The comparison
-- ---------------------------------------------------------------------------

def addRow (t : Nat) (table : Dict Nat (Nat × Nat)) (x : IfEntry) : Dict Nat (Nat × Nat) :=
  match x.ifOperStatus with
  | some status => if x.ifDescr.isSome then table.set x.ifIndex (status, t) else table
  | none => table

/-- `dict([...])` of the rows that have a status and a description. -/
def tableOfRows (rows : List IfEntry) (t : Nat) : Dict Nat (Nat × Nat) :=
  rows.foldl (addRow t) .empty

def tableOfStatus (status : Dict Nat Nat) (t : Nat) : Dict Nat (Nat × Nat) :=
  status.entries.foldl (fun table e => table.set e.1 (e.2, t)) .empty

/-- What `_make_if_cdata` makes of one device. -/
def deviceTable (d : DeviceData) (t : Nat) : Option (Dict Nat (Nat × Nat)) :=
  match d.snmp with
  | none => none
  | some snmp =>
    match snmp.ifMib with
    | some ifMib => ifMib.ifTable.map fun rows => tableOfRows rows t
    | none => snmp.ifOperStatus.map fun status => tableOfStatus status t

def addDevice (t : Nat) (if_cdata : IfData) (e : String × DeviceData) : IfData :=
  match deviceTable e.2 t with
  | some table => if_cdata.set e.1 table
  | none => if_cdata

def _make_if_cdata (data : ScanData) (t : Nat) : IfData :=
  data.entries.foldl (addDevice t) .empty

def _set_status (d : StatusDict) (dev : String) (intf val : Nat) : StatusDict :=
  d.set dev (((d.find? dev).getD .empty).set intf val)

structure Changes where
  down2up : StatusDict
  up2down : StatusDict
  others : StatusDict

def Changes.none : Changes := ⟨.empty, .empty, .empty⟩

/-- An interface of a device that is known: what is known of it, and the changes. -/
def compareKnown (dev : String) (s : Dict Nat (Nat × Nat) × Changes) (e : Nat × (Nat × Nat)) :
    Dict Nat (Nat × Nat) × Changes :=
  (s.1.set e.1 e.2,
    match s.1.find? e.1 with
    | none => s.2
    | some old =>
      if e.2.1 = old.1 then s.2
      else if old.1 = 1 then { s.2 with up2down := _set_status s.2.up2down dev e.1 e.2.1 }
      else if e.2.1 = 1 then { s.2 with down2up := _set_status s.2.down2up dev e.1 e.2.1 }
      else { s.2 with others := _set_status s.2.others dev e.1 e.2.1 })

/-- An interface of a device that is new. -/
def compareNew (dev : String) (changes : Changes) (e : Nat × (Nat × Nat)) : Changes :=
  if e.2.1 = 1 then { changes with down2up := _set_status changes.down2up dev e.1 e.2.1 }
  else { changes with others := _set_status changes.others dev e.1 e.2.1 }

def compareDevice (s : IfData × Changes) (e : String × Dict Nat (Nat × Nat)) : IfData × Changes :=
  match s.1.find? e.1 with
  | some known =>
    let r := e.2.entries.foldl (compareKnown e.1) (known, s.2)
    (s.1.set e.1 r.1, r.2)
  | none => (s.1.set e.1 e.2, e.2.entries.foldl (compareNew e.1) s.2)

def _get_if_changes (_if_data if_cdata : IfData) : IfData × Changes :=
  if_cdata.entries.foldl compareDevice (_if_data, .none)

/-- An interface that is up and was not read for more than `expry` is set to 7, no response. -/
def expireInterface (t : Nat) (expry : Int) (dev : String) (s : Dict Nat (Nat × Nat) × StatusDict)
    (e : Nat × (Nat × Nat)) : Dict Nat (Nat × Nat) × StatusDict :=
  if e.2.1 = 1 ∧ expry + e.2.2 < (t : Int) then (s.1.set e.1 (7, t), _set_status s.2 dev e.1 7)
  else s

def expireDevice (t : Nat) (expry : Int) (s : IfData × StatusDict)
    (e : String × Dict Nat (Nat × Nat)) : IfData × StatusDict :=
  let r := e.2.entries.foldl (expireInterface t expry e.1) (e.2, s.2)
  (s.1.set e.1 r.1, r.2)

def _check_and_update_ttl (t : Nat) (fast_scan_freq : Int) (_if_data : IfData)
    (up2down : StatusDict) : IfData × StatusDict :=
  _if_data.entries.foldl (expireDevice t (3 * fast_scan_freq)) (_if_data, up2down)

/-- When `_make_if_cdata`, `_check_and_update_ttl` and `MaxNinTtime` look at the clock. -/
structure Clock where
  made : Nat
  checked : Nat
  asked : Nat

def _chk_if_change (fast_scan_freq : Int) (_if_data : IfData) (data : ScanData) (clock : Clock) :
    IfData × Changes :=
  let compared := _get_if_changes _if_data (_make_if_cdata data clock.made)
  let checked := _check_and_update_ttl clock.checked fast_scan_freq compared.1 compared.2.up2down
  (checked.1, { compared.2 with up2down := checked.2 })

-- ---------------------------------------------------------------------------
-- The controller
-- ---------------------------------------------------------------------------

structure IfController extends Controller where
  /-- `None` before the first full scan. -/
  _if_data : Option IfData

/-- The statuses of `send_ifstatus_update`. -/
def statuses (_if_data : IfData) : StatusDict :=
  _if_data.entries.foldl (fun d e =>
    d.set e.1 (e.2.entries.foldl (fun table i => table.set i.1 i.2.1) .empty)) .empty

/-- What a call of `_analyze` leads to. -/
structure Analyzed where
  /-- Whether the data is sent, and the time to sleep. -/
  result : Bool × Int
  next : IfController
  /-- What `send_ifstatus_update` sends, if it is called. -/
  update : Option StatusDict

/-- `none` is the `TypeError` of a fast scan before any full one. -/
def IfController._analyze (c : IfController) (data : ScanData) (clock : Clock) : Option Analyzed :=
  match c._state, c._if_data with
  | .fast_scan, none => none
  | .fast_scan, some _if_data =>
    let r := _chk_if_change c._fast_scan_freq _if_data data clock
    if r.2.down2up.entries ≠ [] then
      some {
        result := (false, (c._mnt.add clock.asked).1)
        next := { c with
          _state := .full_scan
          _mnt := (c._mnt.add clock.asked).2
          _if_data := some r.1 }
        update := none }
    else if (c._mnt.ready4full_scan clock.asked).1 then
      some {
        result := (false, 0)
        next := { c with
          _state := .full_scan
          _mnt := (c._mnt.ready4full_scan clock.asked).2
          _if_data := some r.1 }
        update := none }
    else
      some {
        result := (false, c._fast_scan_freq)
        next := { c with
          _mnt := (c._mnt.ready4full_scan clock.asked).2
          _if_data := some r.1 }
        update := if r.2.up2down.entries ≠ [] then some (statuses r.1) else none }
  | .full_scan, _ =>
    some {
      result := (true, c._fast_scan_freq)
      next := { c with _state := .fast_scan, _if_data := some (_make_if_cdata data clock.made) }
      update := some (statuses (_make_if_cdata data clock.made)) }

/-- `_delete_if_data`, or the `TypeError` of `dev in None`. -/
def IfController._delete_if_data (c : IfController) (dev : String) : Option IfController :=
  c._if_data.map fun _if_data => { c with _if_data := some (_if_data.erase dev) }

-- ---------------------------------------------------------------------------
-- What is recorded of an interface
-- ---------------------------------------------------------------------------

def recorded (d : IfData) (dev : String) (intf : Nat) : Option (Nat × Nat) :=
  (d.find? dev).bind fun table => table.find? intf

/-- What a scan that is read at `t` says of an interface. -/
def reported (data : ScanData) (t : Nat) (dev : String) (intf : Nat) : Option (Nat × Nat) :=
  recorded (_make_if_cdata data t) dev intf

/-- What the check for silent interfaces makes of an entry. -/
def expired (t : Nat) (expry : Int) (v : Nat × Nat) : Nat × Nat :=
  if v.1 = 1 ∧ expry + v.2 < (t : Int) then (7, t) else v

theorem find?_make_if_cdata (data : ScanData) (t : Nat) (dev : String) :
    (_make_if_cdata data t).find? dev = (data.find? dev).bind fun d => deviceTable d t := by
  have hset : ∀ (s : IfData) (e : String × DeviceData) (k : String),
      (addDevice t s e).find? k =
        if k = e.1 then (deviceTable e.2 t).or (s.find? k) else s.find? k := by
    intro s e k
    rw [addDevice]
    cases deviceTable e.2 t <;> simp
  rw [_make_if_cdata, @Dict.look_foldl String _ _ DeviceData _ _ Dict.find?
    (fun _ d old => (deviceTable d t).or old) hset]
  cases data.find? dev <;> simp

theorem compareKnown_fst (dev : String) (l : List (Nat × (Nat × Nat)))
    (s : Dict Nat (Nat × Nat) × Changes) :
    (l.foldl (compareKnown dev) s).1 = l.foldl (fun d p => d.set p.1 p.2) s.1 :=
  (List.foldl_hom Prod.fst fun _ _ => rfl).symm

theorem find?_compareDevice (s : IfData × Changes) (e : String × Dict Nat (Nat × Nat))
    (dev : String) :
    (compareDevice s e).1.find? dev =
      if dev = e.1 then some (((s.1.find? dev).elim e.2 fun known => known.update e.2))
      else s.1.find? dev := by
  unfold compareDevice
  cases hknown : s.1.find? e.1 with
  | none =>
    by_cases hdev : dev = e.1
    · simp [hdev, hknown]
    · simp [hdev]
  | some known =>
    by_cases hdev : dev = e.1
    · simp [hdev, hknown, compareKnown_fst, Dict.update]
    · simp [hdev]

theorem recorded_get_if_changes (d if_cdata : IfData) (dev : String) (intf : Nat) :
    recorded (_get_if_changes d if_cdata).1 dev intf =
      (recorded if_cdata dev intf).or (recorded d dev intf) := by
  have hloop := @Dict.look_foldl String _ _ _ _ _ (fun s : IfData × Changes => s.1.find?)
    (fun _ table old => some (old.elim table fun known => known.update table))
    find?_compareDevice if_cdata (d, .none) dev
  rw [recorded, _get_if_changes, hloop, recorded, recorded]
  cases if_cdata.find? dev with
  | none => rfl
  | some table =>
    cases d.find? dev with
    | none => simp
    | some known => simp

theorem find?_expireInterface (t : Nat) (expry : Int) (dev : String) (table : Dict Nat (Nat × Nat))
    (up2down : StatusDict) (intf : Nat) :
    (table.entries.foldl (expireInterface t expry dev) (table, up2down)).1.find? intf =
      (table.find? intf).map (expired t expry) := by
  have hset : ∀ (s : Dict Nat (Nat × Nat) × StatusDict) (e : Nat × (Nat × Nat)) (k : Nat),
      (expireInterface t expry dev s e).1.find? k =
        if k = e.1 then
          if e.2.1 = 1 ∧ expry + e.2.2 < (t : Int) then some (7, t) else s.1.find? k
        else s.1.find? k := by
    intro s e k
    unfold expireInterface
    split <;> simp
  rw [@Dict.look_foldl Nat _ _ _ _ _ (fun s : Dict Nat (Nat × Nat) × StatusDict => s.1.find?)
    (fun _ v old => if v.1 = 1 ∧ expry + v.2 < (t : Int) then some (7, t) else old) hset]
  cases table.find? intf with
  | none => rfl
  | some v =>
    show (if v.1 = 1 ∧ expry + v.2 < (t : Int) then some (7, t) else some v) =
      some (expired t expry v)
    rw [expired]
    split <;> rfl

theorem recorded_check_and_update_ttl (t : Nat) (freq : Int) (d : IfData) (up2down : StatusDict)
    (dev : String) (intf : Nat) :
    recorded (_check_and_update_ttl t freq d up2down).1 dev intf =
      (recorded d dev intf).map (expired t (3 * freq)) := by
  have hset : ∀ (s : IfData × StatusDict) (e : String × Dict Nat (Nat × Nat)) (k : String)
      (i : Nat),
      recorded (expireDevice t (3 * freq) s e).1 k i =
        if k = e.1 then (e.2.find? i).map (expired t (3 * freq)) else recorded s.1 k i := by
    intro s e k i
    by_cases hk : k = e.1
    · simp [recorded, expireDevice, hk, find?_expireInterface]
    · simp [recorded, expireDevice, hk]
  have hloop := @Dict.look_foldl String _ _ _ _ _
    (fun (s : IfData × StatusDict) k => recorded s.1 k intf)
    (fun _ table _ => (table.find? intf).map (expired t (3 * freq)))
    (fun s e k => hset s e k intf) d (d, up2down) dev
  rw [_check_and_update_ttl, hloop]
  simp only [recorded]
  cases d.find? dev <;> rfl

/-- A fast scan records what it is told, keeps what it is not told, and then sets the interfaces
that are up and silent for three scans to 7. -/
theorem recorded_chk_if_change (freq : Int) (d : IfData) (data : ScanData) (clock : Clock)
    (dev : String) (intf : Nat) :
    recorded (_chk_if_change freq d data clock).1 dev intf =
      ((reported data clock.made dev intf).or (recorded d dev intf)).map
        (expired clock.checked (3 * freq)) := by
  rw [_chk_if_change, recorded_check_and_update_ttl, recorded_get_if_changes, reported]

-- ---------------------------------------------------------------------------
-- What the scan finds
-- ---------------------------------------------------------------------------

theorem set_status_ne_nil (d : StatusDict) (dev : String) (intf val : Nat) :
    (_set_status d dev intf val).entries ≠ [] := by
  intro hnil
  have hfind : (_set_status d dev intf val).find? dev ≠ none := by simp [_set_status]
  exact hfind (by rw [Dict.find?, hnil]; rfl)

/-- `old` was not up and `new` is. -/
def ComesUp (new old : Nat × Nat) : Prop := old.1 ≠ 1 ∧ new.1 = 1

/-- `old` was up and `new` is not. -/
def GoesDown (new old : Nat × Nat) : Prop := old.1 = 1 ∧ new.1 ≠ 1

theorem compareKnown_find (dev : String) (s : Dict Nat (Nat × Nat) × Changes)
    (e : Nat × (Nat × Nat)) (k : Nat) (hk : k ≠ e.1) :
    (compareKnown dev s e).1.find? k = s.1.find? k := by
  simp [compareKnown, hk]

theorem compareKnown_down2up (dev : String) (table : Dict Nat (Nat × Nat))
    (s : Dict Nat (Nat × Nat) × Changes) :
    (table.entries.foldl (compareKnown dev) s).2.down2up.entries ≠ [] ↔
      s.2.down2up.entries ≠ [] ∨
        ∃ intf new, table.find? intf = some new ∧ ∃ old ∈ s.1.find? intf, ComesUp new old := by
  refine @Dict.raised_foldl Nat _ _ _ _ _ (fun s : Dict Nat (Nat × Nat) × Changes => s.1.find?)
    (fun s => s.2.down2up.entries ≠ []) (fun _ new known => ∃ old ∈ known, ComesUp new old)
    (fun s e k hk => compareKnown_find dev s e k hk) (fun s e => ?_) table s
  unfold compareKnown
  cases s.1.find? e.1 with
  | none => simp
  | some old =>
    simp only [Option.mem_some_iff, exists_eq_left', ComesUp]
    split_ifs with hsame hold hnew
    · simp [hsame]
    · simp [hold]
    · simp [set_status_ne_nil, hold, hnew]
    · simp [hnew]

theorem compareKnown_up2down (dev : String) (table : Dict Nat (Nat × Nat))
    (s : Dict Nat (Nat × Nat) × Changes) :
    (table.entries.foldl (compareKnown dev) s).2.up2down.entries ≠ [] ↔
      s.2.up2down.entries ≠ [] ∨
        ∃ intf new, table.find? intf = some new ∧ ∃ old ∈ s.1.find? intf, GoesDown new old := by
  refine @Dict.raised_foldl Nat _ _ _ _ _ (fun s : Dict Nat (Nat × Nat) × Changes => s.1.find?)
    (fun s => s.2.up2down.entries ≠ []) (fun _ new known => ∃ old ∈ known, GoesDown new old)
    (fun s e k hk => compareKnown_find dev s e k hk) (fun s e => ?_) table s
  unfold compareKnown
  cases s.1.find? e.1 with
  | none => simp
  | some old =>
    simp only [Option.mem_some_iff, exists_eq_left', GoesDown]
    split_ifs with hsame hold hnew
    · simp [hsame]
    · have hnot : e.2.1 ≠ 1 := fun h => hsame (h.trans hold.symm)
      simp [set_status_ne_nil, hold, hnot]
    · simp [hold]
    · simp [hold]

theorem compareNew_down2up (dev : String) (table : Dict Nat (Nat × Nat)) (changes : Changes) :
    (table.entries.foldl (compareNew dev) changes).down2up.entries ≠ [] ↔
      changes.down2up.entries ≠ [] ∨ ∃ intf new, table.find? intf = some new ∧ new.1 = 1 := by
  refine @Dict.raised_foldl Nat _ _ _ Unit _ (fun _ _ => ()) (fun s => s.down2up.entries ≠ [])
    (fun _ new _ => new.1 = 1) (fun _ _ _ _ => rfl) (fun s e => ?_) table changes
  unfold compareNew
  split_ifs with hnew
  · simp [set_status_ne_nil, hnew]
  · simp [hnew]

theorem compareNew_up2down (dev : String) (l : List (Nat × (Nat × Nat))) (changes : Changes) :
    (l.foldl (compareNew dev) changes).up2down = changes.up2down := by
  induction l generalizing changes with
  | nil => rfl
  | cons e l ih =>
    rw [List.foldl_cons, ih, compareNew]
    split <;> rfl

theorem compareDevice_find (s : IfData × Changes) (e : String × Dict Nat (Nat × Nat)) (dev : String)
    (hdev : dev ≠ e.1) : (compareDevice s e).1.find? dev = s.1.find? dev := by
  rw [find?_compareDevice, if_neg hdev]

/-- A device that is new, or an interface that was not up. -/
def Raises (known : Option (Dict Nat (Nat × Nat))) (intf : Nat) (new : Nat × Nat) : Prop :=
  new.1 = 1 ∧ (known = none ∨ ∃ old ∈ known.bind fun table => table.find? intf, old.1 ≠ 1)

theorem get_if_changes_down2up (d if_cdata : IfData) :
    (_get_if_changes d if_cdata).2.down2up.entries ≠ [] ↔
      ∃ dev intf new, recorded if_cdata dev intf = some new ∧ Raises (d.find? dev) intf new := by
  have hloop := @Dict.raised_foldl String _ _ _ _ _ (fun s : IfData × Changes => s.1.find?)
    (fun s => s.2.down2up.entries ≠ [])
    (fun _ table known => ∃ intf new, table.find? intf = some new ∧ Raises known intf new)
    compareDevice_find (fun s e => ?_) if_cdata (d, .none)
  · rw [_get_if_changes, hloop]
    simp only [Changes.none, Dict.empty, ne_eq, not_true_eq_false, false_or, recorded,
      Option.bind_eq_some_iff]
    constructor
    · rintro ⟨dev, table, hdev, intf, new, hnew, hraises⟩
      exact ⟨dev, intf, new, ⟨table, hdev, hnew⟩, hraises⟩
    · rintro ⟨dev, intf, new, ⟨table, hdev, hnew⟩, hraises⟩
      exact ⟨dev, table, hdev, intf, new, hnew, hraises⟩
  · unfold compareDevice
    cases s.1.find? e.1 with
    | none => simp [compareNew_down2up, Raises]
    | some known => simp [compareKnown_down2up, Raises, ComesUp, and_comm]

theorem get_if_changes_up2down (d if_cdata : IfData) :
    (_get_if_changes d if_cdata).2.up2down.entries ≠ [] ↔
      ∃ dev intf new, recorded if_cdata dev intf = some new ∧
        ∃ old ∈ recorded d dev intf, GoesDown new old := by
  have hloop := @Dict.raised_foldl String _ _ _ _ _ (fun s : IfData × Changes => s.1.find?)
    (fun s => s.2.up2down.entries ≠ [])
    (fun _ table known => ∃ intf new, table.find? intf = some new ∧
      ∃ old ∈ known.bind fun table => table.find? intf, GoesDown new old)
    compareDevice_find (fun s e => ?_) if_cdata (d, .none)
  · rw [_get_if_changes, hloop]
    simp only [Changes.none, Dict.empty, ne_eq, not_true_eq_false, false_or, recorded,
      Option.bind_eq_some_iff]
    constructor
    · rintro ⟨dev, table, hdev, intf, new, hnew, hgoes⟩
      exact ⟨dev, intf, new, ⟨table, hdev, hnew⟩, hgoes⟩
    · rintro ⟨dev, intf, new, ⟨table, hdev, hnew⟩, hgoes⟩
      exact ⟨dev, table, hdev, intf, new, hnew, hgoes⟩
  · unfold compareDevice
    cases s.1.find? e.1 with
    | none => simp [compareNew_up2down]
    | some known => simp [compareKnown_up2down]

/-- An interface that is up and was not read for longer than `expry`. -/
def Silent (t : Nat) (expry : Int) (v : Nat × Nat) : Prop := v.1 = 1 ∧ expry + v.2 < (t : Int)

theorem expireDevice_up2down (t : Nat) (expry : Int) (dev : String)
    (table : Dict Nat (Nat × Nat)) (s : Dict Nat (Nat × Nat) × StatusDict) :
    (table.entries.foldl (expireInterface t expry dev) s).2.entries ≠ [] ↔
      s.2.entries ≠ [] ∨ ∃ intf v, table.find? intf = some v ∧ Silent t expry v := by
  refine @Dict.raised_foldl Nat _ _ _ Unit _ (fun _ _ => ()) (fun s => s.2.entries ≠ [])
    (fun _ v _ => Silent t expry v) (fun _ _ _ _ => rfl) (fun s e => ?_) table s
  unfold expireInterface
  split_ifs with hsilent
  · simp [set_status_ne_nil, Silent, hsilent]
  · simp only [Silent, hsilent, or_false]

theorem check_and_update_ttl_up2down (t : Nat) (freq : Int) (d : IfData) (up2down : StatusDict) :
    (_check_and_update_ttl t freq d up2down).2.entries ≠ [] ↔
      up2down.entries ≠ [] ∨
        ∃ dev intf v, recorded d dev intf = some v ∧ Silent t (3 * freq) v := by
  have hraise : ∀ (s : IfData × StatusDict) (e : String × Dict Nat (Nat × Nat)),
      (expireDevice t (3 * freq) s e).2.entries ≠ [] ↔ s.2.entries ≠ [] ∨
        ∃ intf v, e.2.find? intf = some v ∧ Silent t (3 * freq) v := fun s e =>
    expireDevice_up2down t (3 * freq) e.1 e.2 (e.2, s.2)
  have hloop := @Dict.raised_foldl String _ _ _ Unit _ (fun _ _ => ())
    (fun s : IfData × StatusDict => s.2.entries ≠ [])
    (fun _ table _ => ∃ intf v, table.find? intf = some v ∧ Silent t (3 * freq) v)
    (fun _ _ _ _ => rfl) hraise d (d, up2down)
  rw [_check_and_update_ttl, hloop]
  simp only [recorded, Option.bind_eq_some_iff]
  refine or_congr_right ⟨?_, ?_⟩
  · rintro ⟨dev, table, hdev, intf, v, hv, hsilent⟩
    exact ⟨dev, intf, v, ⟨table, hdev, hv⟩, hsilent⟩
  · rintro ⟨dev, intf, v, ⟨table, hdev, hv⟩, hsilent⟩
    exact ⟨dev, table, hdev, intf, v, hv, hsilent⟩

section Scan

variable (freq : Int) (d : IfData) (data : ScanData) (clock : Clock)

theorem down2up_iff :
    (_chk_if_change freq d data clock).2.down2up.entries ≠ [] ↔
      ∃ dev intf new, reported data clock.made dev intf = some new ∧
        Raises (d.find? dev) intf new :=
  get_if_changes_down2up d (_make_if_cdata data clock.made)

theorem up2down_iff :
    (_chk_if_change freq d data clock).2.up2down.entries ≠ [] ↔
      (∃ dev intf new, reported data clock.made dev intf = some new ∧
        ∃ old ∈ recorded d dev intf, GoesDown new old) ∨
      ∃ dev intf v, (reported data clock.made dev intf).or (recorded d dev intf) = some v ∧
        Silent clock.checked (3 * freq) v := by
  show (_check_and_update_ttl _ _ _ _).2.entries ≠ [] ↔ _
  rw [check_and_update_ttl_up2down, get_if_changes_up2down]
  simp only [recorded_get_if_changes, reported]

/-- A scan that finds nothing leaves what is up, and what is not, as it was. -/
theorem up_iff_of_quiet {dev : String} {intf : Nat} {old : Nat × Nat}
    (hup : ¬ (_chk_if_change freq d data clock).2.down2up.entries ≠ [])
    (hdown : ¬ (_chk_if_change freq d data clock).2.up2down.entries ≠ [])
    (hold : recorded d dev intf = some old) :
    ∃ v, recorded (_chk_if_change freq d data clock).1 dev intf = some v ∧
      (v.1 = 1 ↔ old.1 = 1) := by
  rw [down2up_iff] at hup
  rw [up2down_iff, not_or] at hdown
  obtain ⟨hdown, hsilent⟩ := hdown
  have hkeep : ∀ v, (reported data clock.made dev intf).or (recorded d dev intf) = some v →
      expired clock.checked (3 * freq) v = v := fun v hv =>
    if_neg fun h => hsilent ⟨dev, intf, v, hv, h⟩
  rw [recorded_chk_if_change]
  cases hnew : reported data clock.made dev intf with
  | none =>
    rw [hnew] at hkeep
    refine ⟨old, ?_, Iff.rfl⟩
    rw [Option.none_or, hold, Option.map_some, hkeep old hold]
  | some new =>
    rw [hnew] at hkeep
    refine ⟨new, by rw [Option.some_or, Option.map_some, hkeep new rfl], ?_, fun h => ?_⟩
    · intro h
      by_contra hnot
      exact hup ⟨dev, intf, new, hnew, h, .inr ⟨old, hold, hnot⟩⟩
    · by_contra hnot
      exact hdown ⟨dev, intf, new, hnew, old, hold, h, hnot⟩

end Scan

-- ---------------------------------------------------------------------------
-- The controller, abstractly
-- ---------------------------------------------------------------------------

theorem analyze_eq_none_iff (c : IfController) (data : ScanData) (clock : Clock) :
    c._analyze data clock = none ↔ c._state = .fast_scan ∧ c._if_data = none := by
  obtain ⟨⟨state, mnt, freq⟩, if_data⟩ := c
  cases state with
  | full_scan => simp [IfController._analyze]
  | fast_scan =>
    cases if_data with
    | none => simp [IfController._analyze]
    | some d =>
      simp only [IfController._analyze]
      split_ifs <;> simp

/-- A scan does as it does for the controller that is only told whether an interface came up. -/
theorem analyze_refines {c : IfController} {data : ScanData} {clock : Clock} {r : Analyzed}
    (h : c._analyze data clock = some r) :
    ∃ down2up,
      c.toController._analyze ⟨clock.asked, down2up⟩ = (r.result, r.next.toController) := by
  obtain ⟨⟨state, mnt, freq⟩, if_data⟩ := c
  cases state with
  | full_scan =>
    obtain rfl := Option.some.inj h
    exact ⟨false, rfl⟩
  | fast_scan =>
    cases if_data with
    | none => cases h
    | some d =>
      simp only [IfController._analyze] at h
      simp only [Controller._analyze]
      split at h
      · obtain rfl := Option.some.inj h
        exact ⟨true, rfl⟩
      · split at h
        · rename_i hready
          obtain rfl := Option.some.inj h
          exact ⟨false, by rw [if_neg Bool.false_ne_true, if_pos hready]⟩
        · rename_i hready
          obtain rfl := Option.some.inj h
          exact ⟨false, by rw [if_neg Bool.false_ne_true, if_neg hready]⟩

/-- What a call of `_analyze` does to what is recorded and to what is published. -/
theorem analyze_cases {c : IfController} {data : ScanData} {clock : Clock} {r : Analyzed}
    (h : c._analyze data clock = some r) :
    r.next._fast_scan_freq = c._fast_scan_freq ∧
    ((r.next._state = .fast_scan ∧ r.next._if_data = some (_make_if_cdata data clock.made) ∧
      r.update = some (statuses (_make_if_cdata data clock.made))) ∨
    ∃ d, c._state = .fast_scan ∧ c._if_data = some d ∧
      r.next._if_data = some (_chk_if_change c._fast_scan_freq d data clock).1 ∧
      (r.next._state = .full_scan ∨
        r.next._state = .fast_scan ∧
        ¬ (_chk_if_change c._fast_scan_freq d data clock).2.down2up.entries ≠ [] ∧
        r.update =
          if (_chk_if_change c._fast_scan_freq d data clock).2.up2down.entries ≠ [] then
            some (statuses (_chk_if_change c._fast_scan_freq d data clock).1)
          else none)) := by
  obtain ⟨⟨state, mnt, freq⟩, if_data⟩ := c
  cases state with
  | full_scan =>
    obtain rfl := Option.some.inj h
    exact ⟨rfl, .inl ⟨rfl, rfl, rfl⟩⟩
  | fast_scan =>
    cases if_data with
    | none => cases h
    | some d =>
      simp only [IfController._analyze] at h
      split at h
      · obtain rfl := Option.some.inj h
        exact ⟨rfl, .inr ⟨d, rfl, rfl, rfl, .inl rfl⟩⟩
      · rename_i hup
        split at h
        · obtain rfl := Option.some.inj h
          exact ⟨rfl, .inr ⟨d, rfl, rfl, rfl, .inl rfl⟩⟩
        · obtain rfl := Option.some.inj h
          exact ⟨rfl, .inr ⟨d, rfl, rfl, rfl, .inr ⟨rfl, hup, rfl⟩⟩⟩

-- ---------------------------------------------------------------------------
-- Runs
-- ---------------------------------------------------------------------------

/-- The controller, and the last status update for the devices that were not deleted since. -/
structure World where
  c : IfController
  last_update : StatusDict

inductive Action where
  /-- `do_work` with what the scanner returned. -/
  | work (data : ScanData) (clock : Clock)
  /-- `_del_uves` of one device. -/
  | del (dev : String)

def World.step (w : World) : Action → Option World
  | .work data clock => (w.c._analyze data clock).map fun r =>
    { c := r.next, last_update := r.update.getD w.last_update }
  | .del dev => (w.c._delete_if_data dev).map fun c =>
    { c := c, last_update := w.last_update.erase dev }

/-- The controller before its first scan. -/
def World.start (n t : Nat) (fast_scan_freq : Int) : World where
  c := { Controller.new n t fast_scan_freq with _if_data := none }
  last_update := .empty

def collector (n t : Nat) (fast_scan_freq : Int) : System World Action where
  init := .start n t fast_scan_freq
  step := World.step

def statusIn (d : StatusDict) (dev : String) (intf : Nat) : Option Nat :=
  (d.find? dev).bind fun table => table.find? intf

theorem statusIn_statuses (d : IfData) (dev : String) (intf : Nat) :
    statusIn (statuses d) dev intf = (recorded d dev intf).map Prod.fst := by
  have htable : ∀ (table : Dict Nat (Nat × Nat)),
      (table.entries.foldl (fun (s : Dict Nat Nat) i => s.set i.1 i.2.1) .empty).find? intf =
        (table.find? intf).map Prod.fst := by
    intro table
    rw [@Dict.look_foldl Nat _ _ _ _ _ Dict.find? (fun _ v _ => some v.1)
      (fun s e k => Dict.find?_set s e.1 k e.2.1)]
    cases table.find? intf <;> rfl
  have hset : ∀ (s : StatusDict) (e : String × Dict Nat (Nat × Nat)) (k : String),
      statusIn (s.set e.1 (e.2.entries.foldl (fun table i => table.set i.1 i.2.1) .empty)) k intf =
        if k = e.1 then (e.2.find? intf).map Prod.fst else statusIn s k intf := by
    intro s e k
    by_cases hk : k = e.1
    · simp [statusIn, hk, htable]
    · simp [statusIn, hk]
  rw [statuses, @Dict.look_foldl String _ _ _ _ _ (fun s k => statusIn s k intf)
    (fun _ table _ => (table.find? intf).map Prod.fst) hset, recorded]
  cases d.find? dev <;> rfl

theorem recorded_erase (d : IfData) (dev' dev : String) (intf : Nat) :
    recorded (d.erase dev') dev intf = if dev = dev' then none else recorded d dev intf := by
  by_cases hdev : dev = dev' <;> simp [recorded, hdev]

theorem statusIn_erase (d : StatusDict) (dev' dev : String) (intf : Nat) :
    statusIn (d.erase dev') dev intf = if dev = dev' then none else statusIn d dev intf := by
  by_cases hdev : dev = dev' <;> simp [statusIn, hdev]

-- ---------------------------------------------------------------------------
-- The full scans of a run
-- ---------------------------------------------------------------------------

/-- When the action asks for the time, if it does. -/
def Action.asked : Action → Option Nat
  | .work _ clock => some clock.asked
  | .del _ => none

/-- The full scan that an action leads to. -/
def World.triggered (w : World) : Action → Option FullScan
  | .work data clock => (w.c._analyze data clock).bind fun r =>
    if w.c._state = .fast_scan ∧ r.next._state = .full_scan then
      some ⟨clock.asked, clock.asked + r.result.2⟩
    else none
  | .del _ => none

/-- The full scans of a run, up to the action that raises. -/
def World.scans (w : World) : List Action → List FullScan
  | [] => []
  | a :: rest => (w.triggered a).toList ++ (w.step a).elim [] fun w' => w'.scans rest

/-- A full scan of a device that has one interface, a fast one that reads it, and two that do
not. -/
def sampleRun : List Action :=
  let ifTable : IfMib := ⟨some [⟨1, some 1, some "ge-0/0/1"⟩]⟩
  [.work (Dict.empty.set "switch" ⟨some ⟨some ifTable, none⟩⟩) ⟨100, 100, 100⟩,
    .work (Dict.empty.set "switch" ⟨some ⟨none, some (Dict.empty.set 1 1)⟩⟩) ⟨110, 110, 110⟩,
    .work .empty ⟨120, 120, 120⟩, .work .empty ⟨130, 130, 130⟩]

def sampleWorld : World :=
  ((collector 3 1000 10).run sampleRun).getD (.start 3 1000 10)

theorem run_sampleRun : (collector 3 1000 10).run sampleRun = some sampleWorld := rfl

/-- Every interface of the update is recorded, and up in the one if and only if in the other. -/
def SameUps (last_update : StatusDict) (d : IfData) : Prop :=
  ∀ dev intf status, statusIn last_update dev intf = some status →
    ∃ v, recorded d dev intf = some v ∧ (v.1 = 1 ↔ status = 1)

/-- While fast scans go on there is something to compare with. -/
def UpsPublished (w : World) : Prop :=
  w.c._state = .fast_scan → ∃ d, w.c._if_data = some d ∧ SameUps w.last_update d

theorem sameUps_statuses (d : IfData) : SameUps (statuses d) d := by
  intro dev intf status hstatus
  rw [statusIn_statuses] at hstatus
  obtain ⟨v, hv, rfl⟩ := Option.map_eq_some_iff.mp hstatus
  exact ⟨v, hv, Iff.rfl⟩

theorem SameUps.erase {last_update : StatusDict} {d : IfData} (h : SameUps last_update d)
    (dev' : String) : SameUps (last_update.erase dev') (d.erase dev') := by
  intro dev intf status hstatus
  rw [statusIn_erase] at hstatus
  rw [recorded_erase]
  split_ifs at hstatus ⊢ with hdev
  exact h dev intf status hstatus

theorem SameUps.quiet {last_update : StatusDict} {d : IfData} (h : SameUps last_update d)
    {freq : Int} {data : ScanData} {clock : Clock}
    (hup : ¬ (_chk_if_change freq d data clock).2.down2up.entries ≠ [])
    (hdown : ¬ (_chk_if_change freq d data clock).2.up2down.entries ≠ []) :
    SameUps last_update (_chk_if_change freq d data clock).1 := by
  intro dev intf status hstatus
  obtain ⟨old, hold, hiff⟩ := h dev intf status hstatus
  obtain ⟨v, hv, hv'⟩ := up_iff_of_quiet freq d data clock hup hdown hold
  exact ⟨v, hv, hv'.trans hiff⟩

theorem upsPublished_step {w w' : World} (h : UpsPublished w) {a : Action}
    (hstep : w.step a = some w') : UpsPublished w' := by
  cases a with
  | work data clock =>
    obtain ⟨r, hr, rfl⟩ := Option.map_eq_some_iff.mp hstep
    intro hfast
    obtain ⟨-, ⟨-, hd, hupdate⟩ | ⟨d, hbefore, hd, hnext, hcases⟩⟩ := analyze_cases hr
    · refine ⟨_, hd, ?_⟩
      rw [hupdate]
      exact sameUps_statuses _
    · obtain ⟨d', hd', hsame⟩ := h hbefore
      obtain rfl : d = d' := Option.some.inj (hd.symm.trans hd')
      refine ⟨_, hnext, ?_⟩
      rcases hcases with hfull | ⟨-, hup, hupdate⟩
      · cases hfull.symm.trans hfast
      · rw [hupdate]
        split_ifs with hdown
        · exact sameUps_statuses _
        · exact hsame.quiet hup hdown
  | del dev =>
    obtain ⟨c, hc, rfl⟩ := Option.map_eq_some_iff.mp hstep
    obtain ⟨d, hd, rfl⟩ := Option.map_eq_some_iff.mp hc
    intro hfast
    obtain ⟨d', hd', hsame⟩ := h hfast
    obtain rfl : d = d' := Option.some.inj (hd.symm.trans hd')
    exact ⟨_, rfl, hsame.erase dev⟩

theorem upsPublished_of_reachable {n t : Nat} {fast_scan_freq : Int} {w : World}
    (h : (collector n t fast_scan_freq).Reachable w) : UpsPublished w := by
  refine h.invariant ?_ ?_
  · intro hfast
    cases hfast
  · intro s a s' hs hstep
    exact upsPublished_step hs hstep

/-- So an interface that goes up or down, or that falls silent, is never left unpublished while
fast scans go on, and a fast scan never raises. -/
theorem ups_published {n t : Nat} {fast_scan_freq : Int} {w : World}
    (h : (collector n t fast_scan_freq).Reachable w) (hfast : w.c._state = .fast_scan) :
    (∃ d, w.c._if_data = some d ∧ SameUps w.last_update d) ∧
      ∀ data clock, (w.c._analyze data clock).isSome := by
  obtain ⟨d, hd, hsame⟩ := upsPublished_of_reachable h hfast
  refine ⟨⟨d, hd, hsame⟩, fun data clock => ?_⟩
  rw [Option.isSome_iff_ne_none, ne_eq, analyze_eq_none_iff, hd]
  simp

theorem ups_published_sample :
    (collector 3 1000 10).Reachable sampleWorld ∧ sampleWorld.c._state = .fast_scan ∧
      (∃ d, sampleWorld.c._if_data = some d ∧ SameUps sampleWorld.last_update d) ∧
      ∀ data clock, (sampleWorld.c._analyze data clock).isSome :=
  ⟨System.reachable_of_run run_sampleRun, rfl,
    ups_published (System.reachable_of_run run_sampleRun) rfl⟩

-- ---------------------------------------------------------------------------
-- How old a published status is
-- ---------------------------------------------------------------------------

theorem addRow_time {t : Nat} {table : Dict Nat (Nat × Nat)} {intf : Nat}
    (h : ∀ v, table.find? intf = some v → v.2 = t) (x : IfEntry) :
    ∀ v, (addRow t table x).find? intf = some v → v.2 = t := by
  intro v hv
  unfold addRow at hv
  split at hv
  · split at hv
    · rw [Dict.find?_set] at hv
      split at hv
      · obtain rfl := Option.some.inj hv
        rfl
      · exact h v hv
    · exact h v hv
  · exact h v hv

theorem tableOfRows_time {rows : List IfEntry} {t intf : Nat} {v : Nat × Nat}
    (h : (tableOfRows rows t).find? intf = some v) : v.2 = t := by
  have hloop : ∀ (l : List IfEntry) (table : Dict Nat (Nat × Nat)),
      (∀ v, table.find? intf = some v → v.2 = t) →
      ∀ v, (l.foldl (addRow t) table).find? intf = some v → v.2 = t := by
    intro l
    induction l with
    | nil => exact fun table h => h
    | cons x l ih => exact fun table htable => ih _ (addRow_time htable x)
  refine hloop rows .empty (fun v hv => ?_) v h
  cases hv

theorem tableOfStatus_time {status : Dict Nat Nat} {t intf : Nat} {v : Nat × Nat}
    (h : (tableOfStatus status t).find? intf = some v) : v.2 = t := by
  rw [tableOfStatus, @Dict.look_foldl Nat _ _ _ _ _ Dict.find? (fun _ s _ => some (s, t))
    (fun d e k => Dict.find?_set d e.1 k (e.2, t))] at h
  cases hfind : status.find? intf with
  | none =>
    rw [hfind] at h
    cases h
  | some s =>
    rw [hfind] at h
    obtain rfl := Option.some.inj h
    rfl

theorem reported_time {data : ScanData} {t : Nat} {dev : String} {intf : Nat} {v : Nat × Nat}
    (h : reported data t dev intf = some v) : v.2 = t := by
  obtain ⟨table, htable, hv⟩ := Option.bind_eq_some_iff.mp h
  rw [find?_make_if_cdata] at htable
  obtain ⟨d, -, hd⟩ := Option.bind_eq_some_iff.mp htable
  unfold deviceTable at hd
  split at hd
  · cases hd
  · split at hd
    · obtain ⟨rows, -, rfl⟩ := Option.map_eq_some_iff.mp hd
      exact tableOfRows_time hv
    · obtain ⟨status, -, rfl⟩ := Option.map_eq_some_iff.mp hd
      exact tableOfStatus_time hv

/-- An entry that is up after the check was up before it, and was not silent. -/
theorem eq_of_expired_up {t : Nat} {expry : Int} {v v' : Nat × Nat} (h : expired t expry v = v')
    (hup : v'.1 = 1) : v = v' ∧ (t : Int) ≤ expry + v'.2 := by
  rw [expired] at h
  split_ifs at h with hsilent
  · rw [← h] at hup
    cases hup
  · subst h
    rw [not_and, not_lt] at hsilent
    exact ⟨rfl, hsilent hup⟩

/-- A scan of the run said that the interface is up at this time. -/
def SaidUp (actions : List Action) (dev : String) (intf time : Nat) : Prop :=
  ∃ data clock, .work data clock ∈ actions ∧ clock.made = time ∧
    reported data time dev intf = some (1, time)

theorem SaidUp.later {actions : List Action} {dev : String} {intf time : Nat}
    (h : SaidUp actions dev intf time) (a : Action) : SaidUp (actions ++ [a]) dev intf time := by
  obtain ⟨data, clock, hmem, htime⟩ := h
  exact ⟨data, clock, List.mem_append_left _ hmem, htime⟩

theorem SaidUp.last {data : ScanData} {clock : Clock} {dev : String} {intf : Nat} {v : Nat × Nat}
    (actions : List Action) (h : reported data clock.made dev intf = some v) (hup : v.1 = 1) :
    SaidUp (actions ++ [.work data clock]) dev intf v.2 := by
  have htime := reported_time h
  refine ⟨data, clock, List.mem_append_right _ (List.mem_singleton_self _), htime.symm, ?_⟩
  rw [htime, h, ← htime, ← hup]

/-- What is recorded as up was said to be. -/
def UpsSaid (fast_scan_freq : Int) (actions : List Action) (w : World) : Prop :=
  w.c._fast_scan_freq = fast_scan_freq ∧
    ∀ d, w.c._if_data = some d → ∀ dev intf v, recorded d dev intf = some v → v.1 = 1 →
      SaidUp actions dev intf v.2

theorem upsSaid_step {fast_scan_freq : Int} {actions : List Action} {w w' : World} {a : Action}
    (h : UpsSaid fast_scan_freq actions w) (hstep : w.step a = some w') :
    UpsSaid fast_scan_freq (actions ++ [a]) w' := by
  cases a with
  | work data clock =>
    obtain ⟨r, hr, rfl⟩ := Option.map_eq_some_iff.mp hstep
    obtain ⟨hfreq, hcases⟩ := analyze_cases hr
    refine ⟨hfreq.trans h.1, fun d' hd' dev intf v hv hup => ?_⟩
    rcases hcases with ⟨-, hd, -⟩ | ⟨d, -, hd, hnext, -⟩
    · obtain rfl := Option.some.inj (hd.symm.trans hd')
      exact SaidUp.last actions hv hup
    · obtain rfl := Option.some.inj (hnext.symm.trans hd')
      rw [recorded_chk_if_change] at hv
      obtain ⟨v₀, hv₀, hexpired⟩ := Option.map_eq_some_iff.mp hv
      obtain ⟨rfl, -⟩ := eq_of_expired_up hexpired hup
      rcases Option.or_eq_some_iff.mp hv₀ with hnew | ⟨-, hold⟩
      · exact SaidUp.last actions hnew hup
      · exact (h.2 d hd dev intf v₀ hold hup).later _
  | del dev' =>
    obtain ⟨c, hc, rfl⟩ := Option.map_eq_some_iff.mp hstep
    obtain ⟨d, hd, rfl⟩ := Option.map_eq_some_iff.mp hc
    refine ⟨h.1, fun d' hd' dev intf v hv hup => ?_⟩
    obtain rfl := Option.some.inj hd'
    rw [recorded_erase] at hv
    split_ifs at hv with hdev
    exact (h.2 d hd dev intf v hv hup).later _

theorem upsSaid_of_run {n t : Nat} {fast_scan_freq : Int} {actions : List Action} {w : World}
    (hrun : (collector n t fast_scan_freq).run actions = some w) :
    UpsSaid fast_scan_freq actions w := by
  refine System.run_invariant ?_ ?_ hrun
  · refine ⟨rfl, fun d hd => ?_⟩
    cases hd
  · intro actions s a s' h hstep
    exact upsSaid_step h hstep

end TfAnalytics.SnmpCollector.InterfaceStatus
