import TfAnalytics.Collector.LinkData
import TfAnalytics.Collector.StructuredPart
import TfAnalytics.Collector.SyslogSplice

/-!
# Collector — forwarding a decorated message

`StructuredSyslogPostParsing` (structured_syslog_server.cc) takes the tag, the hardware and the
fields out of the body of a syslog message. Before the message is forwarded
`StructuredSyslogDecorate` looks up what is configured for its host and writes that into the fields
and, with `DecorateMsg`, into the text, in front of the first `]`. The parser takes everything up to
the last `]` of the body.

* `decorateGroups_splice`: where the decorations stand in the text;
* `parseFields_splice`: how the longer body is read;
* `carries_of_spliceable`: when the text that is forwarded has the fields and the decorations.
-/

namespace TfAnalytics.Collector

open TfAnalytics.Lib

namespace DecoratedForward

-- ---------------------------------------------------------------------------
-- Configuration
-- ---------------------------------------------------------------------------

structure MessageConfig where
  process_and_store : Bool
  process_and_summarize : Bool
  forward : Bool
  process_before_forward : Bool
  ints : List String

structure HostnameRecord where
  tenant : Bytes
  location : Bytes
  device : Bytes
  tags : Bytes
  linkmap : OrderedMap String Bytes

structure TenantRecord where
  tenantaddr : Bytes
  tags : Bytes
  dscpmap_ipv4 : OrderedMap String Bytes
  dscpmap_ipv6 : OrderedMap String Bytes

/-- The records, by name; of an SLA profile its `sla_params`. -/
structure StructuredSyslogConfig where
  GetMessageConfig : Bytes → Option MessageConfig
  GetHostnameRecord : Bytes → Option HostnameRecord
  GetTenantRecord : Bytes → Option TenantRecord
  GetSlaProfileRecord : Bytes → Option Bytes
  get_ip_version : Bytes → Int

-- ---------------------------------------------------------------------------
-- The body
-- ---------------------------------------------------------------------------

/-- `find_last_of`. -/
def findLast (c : Char) (s : Bytes) : Option Nat :=
  (s.reverse.idxOf? c).map (s.length - 1 - ·)

/-- `a - b` of two `size_t`. -/
def sizeSub (a b : Nat) : Nat := if b ≤ a then a - b else 2 ^ 64 - (b - a)

/-- The tag, and where the structured data begin. -/
def bodyTag (body : Bytes) : Option (Bytes × Nat) := do
  let tag_end ← findFrom '[' body 0
  let _ ← findFrom ']' body (tag_end + 1)
  let stop ← findFrom ' ' body 0
  let find_tag_str := body.take (sizeSub tag_end 1)
  match findLast ' ' find_tag_str with
  | some tag_index => some ((find_tag_str.drop (tag_index + 1)).take (sizeSub stop tag_index), tag_end)
  | none => some (find_tag_str, tag_end)

/-- The hardware and the structured part. -/
def bodyParts (body : Bytes) (tag_end : Nat) : Option (Bytes × Bytes) := do
  let stop ← findFrom ' ' body tag_end
  let hardware := (body.drop (tag_end + 1)).take (sizeSub (sizeSub stop tag_end) 1)
  let start := stop + 1
  let stop ← findLast ']' body
  some (hardware, (body.drop start).take (sizeSub stop start))

-- ---------------------------------------------------------------------------
-- The fields
-- ---------------------------------------------------------------------------

variable (config : StructuredSyslogConfig) (uninit : String → Int)

/-- What `ProcessStructuredSyslog` adds: the sender's address, and in `SyslogParser::PostParsing` the
time, the facility and the severity. -/
def received (ip : Bytes) (timestamp : Int) (v : SyslogMap) : SyslogMap :=
  let v := (v.insert "ip" (.str ip)).insert "timestamp" (.int timestamp)
  let facsev := GetMapVal uninit v "facsev" 0
  (v.insert "facility" (.int (facsev / 8))).insert "severity" (.int (facsev % 8))

/-- The fields that are not written into the database. -/
def unnecessary : List String :=
  ["msglen", "severity", "facility", "year", "month", "day", "hour", "min", "sec", "msec"]

def eraseUnnecessary (v : SyslogMap) : SyslogMap :=
  let v := unnecessary.foldl OrderedMap.erase v
  if GetMapVal uninit v "pid" (-1) = -1 then v.erase "pid" else v

structure Parsed where
  tag : Bytes
  hardware : Bytes
  mc : MessageConfig
  v : SyslogMap

/-- The first half of `StructuredSyslogPostParsing`; `none` where it returns false. -/
def parseFields (v : SyslogMap) : Option Parsed := do
  let v := eraseUnnecessary uninit v
  let body := GetMapVals v "body" []
  let v := v.erase "body"
  let (tag, tag_end) ← bodyTag body
  let mc ← config.GetMessageConfig tag
  if !mc.process_and_store && !mc.forward && !mc.process_and_summarize then none
  else
    let v := v.insert "tag" (.str tag)
    let (hardware, structured_part) ← bodyParts body tag_end
    let v := v.insert "hardware" (.str hardware)
    let result ← ParseStructuredPart mc.ints structured_part v none
    if result.ret then some ⟨tag, hardware, mc, result.v⟩ else none

-- ---------------------------------------------------------------------------
-- Decorations
-- ---------------------------------------------------------------------------

/-- An `int64_t`. -/
def int64 (n : Int) : Int := (n + 2 ^ 63) % 2 ^ 64 - 2 ^ 63

def total_bytes (v : SyslogMap) : Int :=
  int64 (GetMapVal uninit v "bytes-from-client" 0 + GetMapVal uninit v "bytes-from-server" 0)

/-- The profile in `sla-rule`, or at the end of `rule-name`. -/
def sla_profile (v : SyslogMap) : Bytes :=
  let sla_rule := GetMapVals v "sla-rule" []
  if sla_rule = [] then
    let rn := GetMapVals v "rule-name" []
    if rn = [] then "DEFAULT".toList
    else
      match findLast '_' rn with
      | some start => rn.drop (start + 1)
      | none => "DEFAULT".toList
  else sla_rule

/-- A text of the host, if there is one, in the fields and in the message. -/
def decorateField (key : String) (val : Bytes) (s : SyslogMap × Option Bytes × Nat) :
    SyslogMap × Option Bytes × Nat :=
  if val = [] then s
  else ((s.1.erase key).insert key (.str val), DecorateMsg s.2.1 key.toList val s.2.2)

/-- Tags or parameters, if there are some. -/
def decoratePart (int_fields : List String) (structured_part : Bytes) (v : SyslogMap)
    (msg : Option Bytes) : Option (SyslogMap × Option Bytes) :=
  if structured_part = [] then some (v, msg)
  else (ParseStructuredPart int_fields structured_part v msg).map fun r => (r.v, r.fwd_msg)

/-- `dscp-alias-code`, by the version of the destination's address. -/
def decorateDscp (tr : TenantRecord) (v : SyslogMap) : SyslogMap :=
  let dscp_value := GetMapVals v "dscp-value" []
  let dscp_value := if dscp_value = [] then GetMapVals v "ip-dscp" [] else dscp_value
  if dscp_value = [] then v
  else
    let destination_address := GetMapVals v "destination-address" "UNKNOWN".toList
    let ip_version :=
      if destination_address ≠ "UNKNOWN".toList then config.get_ip_version destination_address else 4
    let dscpmap :=
      if ip_version = 4 then tr.dscpmap_ipv4 else if ip_version = 6 then tr.dscpmap_ipv6 else .empty
    match dscpmap.find? (String.ofList dscp_value) with
    | some alias_code => v.insert "dscp-alias-code" (.str alias_code)
    | none => v

/-- What the tenant's record adds. -/
def decorateTenant (int_fields : List String) (tenant : Bytes) (v : SyslogMap) (msg : Option Bytes) :
    Option (SyslogMap × Option Bytes) :=
  match config.GetTenantRecord tenant with
  | none => some (v, msg)
  | some tr => do
    let v := if tr.tenantaddr = [] then v else v.insert "tenantaddr" (.str tr.tenantaddr)
    let (v, msg) ← decoratePart int_fields tr.tags v msg
    some (decorateDscp config tr v, msg)

/-- `none` where a link is read out of range. -/
def StructuredSyslogDecorate (int_fields : List String) (v : SyslogMap) (msg : Option Bytes) :
    Option (SyslogMap × Option Bytes) := do
  let total_bytes := total_bytes uninit v
  let v := v.insert "total-bytes" (.int total_bytes)
  let (msg, prev_pos) := DecorateMsg msg "total-bytes".toList (intText total_bytes) 0
  let v := ((v.insert "tenant" (.str "UNKNOWN".toList)).insert "location"
    (.str "UNKNOWN".toList)).insert "device" (.str "UNKNOWN".toList)
  let sla_profile := sla_profile v
  let v := v.insert "sla-profile" (.str sla_profile)
  let (msg, prev_pos) := DecorateMsg msg "sla-profile".toList sla_profile prev_pos
  match config.GetHostnameRecord (GetMapVals v "hostname" []) with
  | none => some (v, msg)
  | some hr => do
    let (v, msg, _) := decorateField "device" hr.device (decorateField "location" hr.location
      (decorateField "tenant" hr.tenant (v, msg, prev_pos)))
    let (v, msg) ← decoratePart int_fields hr.tags v msg
    let v ← decorateLinks hr.linkmap v
    let (v, msg) ← decorateTenant config int_fields hr.tenant v msg
    match config.GetSlaProfileRecord (hr.tenant ++ '/' :: (hr.device ++ '/' :: sla_profile)) with
    | none => some (v, msg)
    | some sla_params => decoratePart int_fields sla_params v msg

-- ---------------------------------------------------------------------------
-- Forwarding
-- ---------------------------------------------------------------------------

def filter_msg (v : SyslogMap) : Bool :=
  let tag := GetMapVals v "tag" "UNKNOWN".toList
  let reason := GetMapVals v "reason" "UNKNOWN".toList
  if tag = "APPQOE_BEST_PATH_SELECTED".toList ∧
      (reason = "session close".toList ∨ reason = "app detected".toList) then false
  else
    !((tag = "SNMP_TRAP_LINK_UP".toList || tag = "SNMP_TRAP_LINK_DOWN".toList) &&
      (GetMapVals v "role" "UNKNOWN".toList = "HUB".toList &&
        (GetMapVals v "interface-name" "UNKNOWN".toList).take 2 ≠ "st".toList))

def filter_session_close_msg (v : SyslogMap) : Bool :=
  let routing_instance := GetMapVals v "routing-instance" "UNKNOWN".toList
  3 < routing_instance.length && routing_instance.take 4 = "LAN-".toList

def filter_vol_update_msg (v : SyslogMap) : Bool :=
  let department := GetMapVals v "source-zone-name" "UNKNOWN".toList
  department.take 5 = "trust".toList || department.take 7 = "untrust".toList

/-- The message that `StructuredSyslogPostParsing` forwards after `StructuredSyslogDecorate`, if it
does; there is a forwarder. -/
def decoratedForward (v : SyslogMap) (message : Bytes) : Option Bytes := do
  let p ← parseFields config uninit v
  if p.tag = "APPTRACK_SESSION_CLOSE".toList ∧ filter_session_close_msg p.v then none
  else if p.tag = "APPTRACK_SESSION_VOL_UPDATE".toList ∧ filter_vol_update_msg p.v then none
  else if p.mc.process_and_store || p.mc.process_before_forward || p.mc.process_and_summarize then do
    let msg := if p.mc.forward then some message else none
    let (v, msg) ← StructuredSyslogDecorate config uninit p.mc.ints p.v msg
    if p.mc.forward && p.mc.process_before_forward && filter_msg v then
      msg.map fun msg => Nat.toDigits 10 msg.length ++ ' ' :: msg
    else none
  else none

-- ---------------------------------------------------------------------------
-- Where the decorations stand
-- ---------------------------------------------------------------------------

/-- A decoration as text. -/
def renderDecoration (d : Bytes × Bytes) : Bytes := ' ' :: d.1 ++ '=' :: '"' :: d.2 ++ ['"']

def renderDecorations (ds : List (Bytes × Bytes)) : Bytes := ds.flatMap renderDecoration

/-- A decoration that a later one is not looked for in. -/
def Unbracketed (d : Bytes × Bytes) : Prop := ']' ∉ d.1 ∧ ']' ∉ d.2

instance (d : Bytes × Bytes) : Decidable (Unbracketed d) := inferInstanceAs (Decidable (_ ∧ _))

theorem Unbracketed.render {d : Bytes × Bytes} (h : Unbracketed d) : ']' ∉ renderDecoration d := by
  simp only [renderDecoration, List.mem_append, List.mem_cons, List.not_mem_nil, not_or]
  exact ⟨⟨⟨by decide, h.1⟩, by decide, by decide, h.2⟩, by decide, not_false⟩

theorem decorateMsg_splice {x : Bytes} (hx : ']' ∉ x) {pos : Nat} (hpos : pos ≤ x.length)
    (d : Bytes × Bytes) (post : Bytes) :
    DecorateMsg (some (x ++ ']' :: post)) d.1 d.2 pos =
      (some (x ++ renderDecoration d ++ ']' :: post), x.length) := by
  have hdrop : (x ++ ']' :: post).drop pos = x.drop pos ++ ']' :: post :=
    List.drop_append_of_le_length hpos
  have hfind := findFrom_eq_some hdrop fun h => hx (List.mem_of_mem_drop h)
  have hlength : pos + (x.drop pos).length = x.length := by
    rw [List.length_drop]
    omega
  rw [hlength] at hfind
  rw [DecorateMsg, hfind]
  show (some ((x ++ ']' :: post).take x.length ++ renderDecoration d ++ (x ++ ']' :: post).drop x.length),
    x.length) = _
  rw [List.take_left, List.drop_left]

/-- As long as no decoration brings a bracket along, each goes behind the one before. -/
theorem decoratePairs_splice {ds : List (Bytes × Bytes)} (hds : ∀ d ∈ ds.dropLast, Unbracketed d)
    {x : Bytes} (hx : ']' ∉ x) {pos : Nat} (hpos : pos ≤ x.length) (post : Bytes) :
    (decoratePairs (some (x ++ ']' :: post)) pos ds).1 =
      some (x ++ renderDecorations ds ++ ']' :: post) := by
  induction ds generalizing x pos with
  | nil =>
    rw [renderDecorations, List.flatMap_nil, List.append_nil]
    rfl
  | cons d ds ih =>
    show (decoratePairs (DecorateMsg (some (x ++ ']' :: post)) d.1 d.2 pos).1
      (DecorateMsg (some (x ++ ']' :: post)) d.1 d.2 pos).2 ds).1 = _
    rw [decorateMsg_splice hx hpos, renderDecorations, List.flatMap_cons, ← List.append_assoc]
    cases ds with
    | nil =>
      rw [List.flatMap_nil, List.append_nil]
      rfl
    | cons e ds =>
      rw [List.dropLast_cons_cons, List.forall_mem_cons] at hds
      have hx' : ']' ∉ x ++ renderDecoration d :=
        fun h => (List.mem_append.mp h).elim hx hds.1.render
      exact ih hds.2 hx' (by rw [List.length_append]; omega)

/-- The groups of decorations that `StructuredSyslogDecorate` writes, each from the begin of the
message on. -/
def decorateGroups (msg : Option Bytes) (groups : List (List (Bytes × Bytes))) : Option Bytes :=
  groups.foldl (fun msg ds => (decoratePairs msg 0 ds).1) msg

theorem decorateGroups_nil {groups : List (List (Bytes × Bytes))} (h : groups.flatten = [])
    (msg : Option Bytes) : decorateGroups msg groups = msg := by
  induction groups with
  | nil => rfl
  | cons ds groups ih =>
    obtain ⟨rfl, h⟩ := List.append_eq_nil_iff.mp ((List.flatten_cons).symm.trans h)
    exact ih h

theorem decorateGroups_splice {groups : List (List (Bytes × Bytes))}
    (hgroups : ∀ d ∈ groups.flatten.dropLast, Unbracketed d) {x : Bytes} (hx : ']' ∉ x)
    (post : Bytes) :
    decorateGroups (some (x ++ ']' :: post)) groups =
      some (x ++ renderDecorations groups.flatten ++ ']' :: post) := by
  induction groups generalizing x with
  | nil =>
    rw [List.flatten_nil, renderDecorations, List.flatMap_nil, List.append_nil]
    rfl
  | cons ds groups ih =>
    rw [List.flatten_cons] at hgroups ⊢
    show decorateGroups (decoratePairs (some (x ++ ']' :: post)) 0 ds).1 groups = _
    by_cases hnil : groups.flatten = []
    · rw [hnil, List.append_nil] at hgroups ⊢
      rw [decorateGroups_nil hnil, decoratePairs_splice hgroups hx (Nat.zero_le _)]
    · rw [List.dropLast_append_of_ne_nil hnil] at hgroups
      have hds : ∀ d ∈ ds, Unbracketed d := fun d hd => hgroups d (List.mem_append_left _ hd)
      have hx' : ']' ∉ x ++ renderDecorations ds := by
        intro h
        rcases List.mem_append.mp h with h | h
        · exact hx h
        · obtain ⟨d, hd, h⟩ := List.mem_flatMap.mp h
          exact (hds d hd).render h
      rw [decoratePairs_splice (fun d hd => hds d (List.mem_of_mem_dropLast hd)) hx (Nat.zero_le _),
        ih (fun d hd => hgroups d (List.mem_append_right _ hd)) hx', renderDecorations,
        renderDecorations, renderDecorations, List.flatMap_append, List.append_assoc x]

-- ---------------------------------------------------------------------------
-- The structured part with more fields
-- ---------------------------------------------------------------------------

/-- A text that ends with the closing quote of its last field. -/
inductive Closed : Bytes → List (Bytes × Bytes) → Prop
  | last {key val : Bytes} {opening : Char} (hkey : '=' ∉ key) (hval : '"' ∉ val) :
    Closed (key ++ '=' :: opening :: (val ++ ['"'])) [(key, val)]
  | pair {key val rest : Bytes} {opening skipped : Char} {pairs : List (Bytes × Bytes)}
    (hkey : '=' ∉ key) (hval : '"' ∉ val) (h : Closed rest pairs) :
    Closed (key ++ '=' :: opening :: (val ++ '"' :: skipped :: rest)) ((key, val) :: pairs)

/-- What stands behind it is read from its second character on. -/
theorem Closed.scan {text t : Bytes} {pairs pairs' : List (Bytes × Bytes)} {ret : Bool}
    (h : Closed text pairs) (ht : Scan (t.drop 1) pairs' ret) :
    Scan (text ++ t) (pairs ++ pairs') ret := by
  induction h with
  | @last key val opening hkey hval =>
    have hpair : Scan (key ++ '=' :: opening :: (val ++ '"' :: t)) ((key, val) :: pairs') ret :=
      .pair hkey hval ht
    simpa using hpair
  | @pair key val rest opening skipped pairs hkey hval _ ih =>
    have hpair : Scan (key ++ '=' :: opening :: (val ++ '"' :: (skipped :: (rest ++ t))))
        ((key, val) :: (pairs ++ pairs')) ret := .pair hkey hval ih
    simpa using hpair

theorem Closed.append {text text' : Bytes} {pairs pairs' : List (Bytes × Bytes)} {skipped : Char}
    (h : Closed text pairs) (h' : Closed text' pairs') :
    Closed (text ++ skipped :: text') (pairs ++ pairs') := by
  induction h with
  | @last key val opening hkey hval =>
    have hpair : Closed (key ++ '=' :: opening :: (val ++ '"' :: skipped :: text'))
        ((key, val) :: pairs') := .pair hkey hval h'
    simpa using hpair
  | @pair key val rest opening skipped' pairs hkey hval _ ih =>
    have hpair : Closed (key ++ '=' :: opening :: (val ++ '"' :: skipped' :: (rest ++ skipped :: text')))
        ((key, val) :: (pairs ++ pairs')) := .pair hkey hval ih
    simpa using hpair

theorem Closed.ends {text : Bytes} {pairs : List (Bytes × Bytes)} (h : Closed text pairs) :
    ∃ t, text = t ++ ['"'] := by
  induction h with
  | @last key val opening hkey hval => exact ⟨key ++ '=' :: opening :: val, by simp⟩
  | @pair key val rest opening skipped pairs hkey hval _ ih =>
    obtain ⟨t, rfl⟩ := ih
    exact ⟨key ++ '=' :: opening :: (val ++ '"' :: skipped :: t), by simp⟩

theorem Closed.decorations {ds : List (Bytes × Bytes)} (hds : ∀ d ∈ ds, PlainPair d) {text : Bytes}
    {pairs : List (Bytes × Bytes)} (h : Closed text pairs) :
    Closed (text ++ renderDecorations ds) (pairs ++ ds) := by
  induction ds generalizing text pairs with
  | nil =>
    rw [renderDecorations, List.flatMap_nil, List.append_nil, List.append_nil]
    exact h
  | cons d ds ih =>
    rw [List.forall_mem_cons] at hds
    have hd : Closed (d.1 ++ '=' :: '"' :: (d.2 ++ ['"'])) [d] := .last hds.1.1 hds.1.2
    have hnext : Closed (text ++ ' ' :: (d.1 ++ '=' :: '"' :: (d.2 ++ ['"']))) (pairs ++ [d]) :=
      h.append hd
    have hrender : text ++ ' ' :: (d.1 ++ '=' :: '"' :: (d.2 ++ ['"'])) =
        text ++ renderDecoration d := by simp [renderDecoration]
    rw [hrender] at hnext
    have hrest := ih hds.2 hnext
    rw [List.append_assoc, List.append_assoc] at hrest
    exact hrest

theorem scan_plain {text : Bytes} {pairs : List (Bytes × Bytes)} {ret : Bool}
    (h : Scan text pairs ret) : ∀ p ∈ pairs, PlainPair p := by
  induction h with
  | done => exact fun _ hp => absurd hp List.not_mem_nil
  | unclosed => exact fun _ hp => absurd hp List.not_mem_nil
  | pair hkey hval _ ih => exact List.forall_mem_cons.mpr ⟨⟨hkey, hval⟩, ih⟩

/-- The fields of a text, as far as they are closed. -/
def structuredPairs : Nat → Bytes → List (Bytes × Bytes)
  | 0, _ => []
  | fuel + 1, text =>
    match splitFirst '=' text with
    | none => []
    | some (key, rest) =>
      match splitFirst '"' (rest.drop 1) with
      | none => []
      | some (val, rest) => (key, val) :: structuredPairs fuel (rest.drop 1)

def pairsOf (text : Bytes) : List (Bytes × Bytes) := structuredPairs (text.length + 1) text

theorem structuredPairs_scan {text : Bytes} {pairs : List (Bytes × Bytes)} {ret : Bool}
    (h : Scan text pairs ret) {fuel : Nat} (hfuel : text.length < fuel) :
    structuredPairs fuel text = pairs := by
  induction h generalizing fuel with
  | done h =>
    obtain ⟨fuel, rfl⟩ : ∃ n, fuel = n + 1 := ⟨fuel - 1, by omega⟩
    rw [structuredPairs, splitFirst_eq_none_iff.mpr h]
  | @unclosed key rest hkey hrest =>
    obtain ⟨fuel, rfl⟩ : ∃ n, fuel = n + 1 := ⟨fuel - 1, by omega⟩
    rw [structuredPairs, splitFirst_append hkey]
    simp only [splitFirst_eq_none_iff.mpr hrest]
  | @pair key val rest opening pairs ret hkey hval _ ih =>
    obtain ⟨fuel, rfl⟩ : ∃ n, fuel = n + 1 := ⟨fuel - 1, by omega⟩
    have hlt : (rest.drop 1).length < fuel := by
      simp only [List.length_append, List.length_cons, List.length_drop] at hfuel ⊢
      omega
    rw [structuredPairs, splitFirst_append hkey]
    simp only [List.drop_succ_cons, List.drop_zero, splitFirst_append hval, ih hlt]

/-- A call of `ParseStructuredPart`. -/
theorem parseStructuredPart_eq (int_fields : List String) (text : Bytes) :
    ∃ ret, Scan text (pairsOf text) ret ∧ ∀ v fwd_msg, ParseStructuredPart int_fields text v fwd_msg =
      some ⟨addPairs int_fields v (pairsOf text), (decoratePairs fwd_msg 0 (pairsOf text)).1, ret⟩ := by
  obtain ⟨pairs, ret, hscan⟩ := exists_scan text
  have hpairs : pairsOf text = pairs := structuredPairs_scan hscan (Nat.lt_succ_self _)
  rw [hpairs]
  exact ⟨ret, hscan, ParseStructuredPart_scan hscan⟩

-- ---------------------------------------------------------------------------
-- The fields, in another order
-- ---------------------------------------------------------------------------

theorem find?_addPairs_or (int_fields : List String) (v : SyslogMap) (pairs : List (Bytes × Bytes))
    (key : String) : (addPairs int_fields v pairs).find? key =
      (v.find? key).or ((pairs.find? fun p => String.ofList p.1 = key).map fun p =>
        pairHolder int_fields p.1 p.2) := by
  induction pairs generalizing v with
  | nil =>
    show v.find? key = _
    rw [List.find?_nil, Option.map_none, Option.or_none]
  | cons p pairs ih =>
    show (addPairs int_fields (v.insert _ _) pairs).find? key = _
    rw [ih, OrderedMap.find?_insert, List.find?_cons]
    by_cases hkey : key = String.ofList p.1
    · rw [if_pos hkey, ← hkey]
      simp only [decide_true, Option.map_some]
      cases v.find? key <;> rfl
    · rw [if_neg hkey]
      simp only [decide_eq_false (Ne.symm hkey)]

theorem addPairs_append (int_fields : List String) (v : SyslogMap) (xs ys : List (Bytes × Bytes)) :
    addPairs int_fields v (xs ++ ys) = addPairs int_fields (addPairs int_fields v xs) ys :=
  List.foldl_append

/-- Fields with other names can change places. -/
theorem find?_addPairs_comm (int_fields : List String) (v : SyslogMap)
    {pairs ds : List (Bytes × Bytes)} (h : ∀ p ∈ pairs, ∀ d ∈ ds, p.1 ≠ d.1) (key : String) :
    (addPairs int_fields v (ds ++ pairs)).find? key =
      (addPairs int_fields v (pairs ++ ds)).find? key := by
  rw [find?_addPairs_or, find?_addPairs_or, List.find?_append, List.find?_append]
  cases hp : pairs.find? fun p => String.ofList p.1 = key with
  | none => rw [Option.or_none, Option.none_or]
  | some p =>
    have hd : (ds.find? fun d => String.ofList d.1 = key) = none := by
      refine List.find?_eq_none.mpr fun d hd heq => ?_
      have hkey : String.ofList p.1 = key := by simpa using List.find?_some hp
      exact h p (List.mem_of_find?_eq_some hp) d hd
        (String.ofList_injective (hkey.trans (of_decide_eq_true heq).symm))
    rw [hd, Option.or_none, Option.none_or]

-- ---------------------------------------------------------------------------
-- What is written
-- ---------------------------------------------------------------------------

def fieldPairs (key : String) (val : Bytes) : List (Bytes × Bytes) :=
  if val = [] then [] else [(key.toList, val)]

/-- The decorations of a message with these fields, in the order in which they are written. -/
def decorationGroups (v : SyslogMap) : List (List (Bytes × Bytes)) :=
  let ofMessage := [("total-bytes".toList, intText (total_bytes uninit v)),
    ("sla-profile".toList, sla_profile v)]
  match config.GetHostnameRecord (GetMapVals v "hostname" []) with
  | none => [ofMessage]
  | some hr =>
    [ofMessage ++ (fieldPairs "tenant" hr.tenant ++ (fieldPairs "location" hr.location ++
        fieldPairs "device" hr.device)),
      pairsOf hr.tags,
      ((config.GetTenantRecord hr.tenant).map fun tr => pairsOf tr.tags).getD [],
      ((config.GetSlaProfileRecord
        (hr.tenant ++ '/' :: (hr.device ++ '/' :: sla_profile v))).map pairsOf).getD []]

def decorations (v : SyslogMap) : List (Bytes × Bytes) := (decorationGroups config uninit v).flatten

variable {config uninit}

theorem getMapVals_insert {key key' : String} (h : key ≠ key') (v : SyslogMap) (x : Holder)
    (default : Bytes) : GetMapVals (v.insert key' x) key default = GetMapVals v key default := by
  rw [GetMapVals, GetMapVals, OrderedMap.find?_insert, if_neg h]

theorem sla_profile_insert {key : String} (h : "sla-rule" ≠ key) (h' : "rule-name" ≠ key)
    (v : SyslogMap) (x : Holder) : sla_profile (v.insert key x) = sla_profile v := by
  rw [sla_profile, sla_profile, getMapVals_insert h, getMapVals_insert h']

theorem decoratePairs_append (msg : Option Bytes) (pos : Nat) (xs ys : List (Bytes × Bytes)) :
    decoratePairs msg pos (xs ++ ys) =
      decoratePairs (decoratePairs msg pos xs).1 (decoratePairs msg pos xs).2 ys :=
  List.foldl_append

theorem decorateField_msg (key : String) (val : Bytes) (s : SyslogMap × Option Bytes × Nat) :
    (decorateField key val s).2 = decoratePairs s.2.1 s.2.2 (fieldPairs key val) := by
  rw [decorateField, fieldPairs]
  split <;> rfl

theorem decoratePart_msg {int_fields : List String} {structured_part : Bytes} {v v' : SyslogMap}
    {msg msg' : Option Bytes} (h : decoratePart int_fields structured_part v msg = some (v', msg')) :
    msg' = (decoratePairs msg 0 (pairsOf structured_part)).1 := by
  rw [decoratePart] at h
  by_cases hnil : structured_part = []
  · rw [if_pos hnil] at h
    rw [hnil]
    exact (Prod.mk.inj (Option.some.inj h)).2.symm
  · obtain ⟨ret, -, hparse⟩ := parseStructuredPart_eq int_fields structured_part
    rw [if_neg hnil, hparse] at h
    exact (Prod.mk.inj (Option.some.inj h)).2.symm

theorem decorateTenant_msg {int_fields : List String} {tenant : Bytes} {v v' : SyslogMap}
    {msg msg' : Option Bytes} (h : decorateTenant config int_fields tenant v msg = some (v', msg')) :
    msg' = (decoratePairs msg 0
      (((config.GetTenantRecord tenant).map fun tr => pairsOf tr.tags).getD [])).1 := by
  rw [decorateTenant] at h
  cases hrecord : config.GetTenantRecord tenant with
  | none =>
    rw [hrecord] at h
    exact (Prod.mk.inj (Option.some.inj h)).2.symm
  | some tr =>
    rw [hrecord] at h
    obtain ⟨⟨v₁, msg₁⟩, hpart, h⟩ := Option.bind_eq_some_iff.mp h
    obtain rfl := (Prod.mk.inj (Option.some.inj h)).2
    exact decoratePart_msg hpart

/-- The message is written group by group. -/
theorem decorate_msg {int_fields : List String} {v v' : SyslogMap} {msg msg' : Option Bytes}
    (h : StructuredSyslogDecorate config uninit int_fields v msg = some (v', msg')) :
    msg' = decorateGroups msg (decorationGroups config uninit v) := by
  rw [StructuredSyslogDecorate] at h
  dsimp only at h
  -- the fields that are set first are not among those that name the profile
  have hsla : sla_profile ((((v.insert "total-bytes" (.int (total_bytes uninit v))).insert "tenant"
      (.str "UNKNOWN".toList)).insert "location" (.str "UNKNOWN".toList)).insert "device"
      (.str "UNKNOWN".toList)) = sla_profile v := by
    rw [sla_profile_insert (by decide) (by decide), sla_profile_insert (by decide) (by decide),
      sla_profile_insert (by decide) (by decide), sla_profile_insert (by decide) (by decide)]
  rw [hsla, getMapVals_insert (by decide), getMapVals_insert (by decide),
    getMapVals_insert (by decide), getMapVals_insert (by decide), getMapVals_insert (by decide)] at h
  rw [decorationGroups]
  -- without a record of the host nothing is added
  cases hrecord : config.GetHostnameRecord (GetMapVals v "hostname" []) with
  | none =>
    rw [hrecord] at h
    exact (Prod.mk.inj (Option.some.inj h)).2.symm
  | some hr =>
    rw [hrecord] at h
    dsimp only at h
    obtain ⟨⟨v₁, msg₁⟩, hpart, h⟩ := Option.bind_eq_some_iff.mp h
    obtain ⟨v₂, hlinks, h⟩ := Option.bind_eq_some_iff.mp h
    obtain ⟨⟨v₃, msg₃⟩, htenant, h⟩ := Option.bind_eq_some_iff.mp h
    have hmsg₁ := decoratePart_msg hpart
    have hmsg₃ := decorateTenant_msg htenant
    -- tenant, location and device are written as one group
    have hfields : ∀ (v₀ : SyslogMap) (msg₀ : Option Bytes) (pos : Nat),
        (decorateField "device" hr.device (decorateField "location" hr.location
          (decorateField "tenant" hr.tenant (v₀, msg₀, pos)))).2 =
        decoratePairs msg₀ pos (fieldPairs "tenant" hr.tenant ++
          (fieldPairs "location" hr.location ++ fieldPairs "device" hr.device)) := by
      intro v₀ msg₀ pos
      rw [decorateField_msg, decorateField_msg, decorateField_msg, decoratePairs_append,
        decoratePairs_append]
    have hmsg₁ := hmsg₁.trans (congrArg (fun s : Option Bytes × Nat =>
      (decoratePairs s.1 0 (pairsOf hr.tags)).1) (hfields _ _ _))
    -- the tags of the record and of the tenant are two more
    have hgroups : decorateGroups msg [[("total-bytes".toList, intText (total_bytes uninit v)),
          ("sla-profile".toList, sla_profile v)] ++ (fieldPairs "tenant" hr.tenant ++
            (fieldPairs "location" hr.location ++ fieldPairs "device" hr.device)), pairsOf hr.tags,
        ((config.GetTenantRecord hr.tenant).map fun tr => pairsOf tr.tags).getD []] = msg₃ := by
      rw [hmsg₃, hmsg₁]
      rfl
    dsimp only
    -- and the parameters of the profile the last one
    cases hsla_rec : config.GetSlaProfileRecord
        (hr.tenant ++ '/' :: (hr.device ++ '/' :: sla_profile v)) with
    | none =>
      rw [hsla_rec] at h
      rw [← (Prod.mk.inj (Option.some.inj h)).2, ← hgroups]
      rfl
    | some sla_params =>
      rw [hsla_rec] at h
      have hmsg' := decoratePart_msg h
      rw [← hgroups] at hmsg'
      exact hmsg'

-- ---------------------------------------------------------------------------
-- How a body is read
-- ---------------------------------------------------------------------------

theorem exists_findFrom {c : Char} {s : Bytes} {pos : Nat} (h : c ∈ s.drop pos) :
    ∃ i, findFrom c s pos = some i := by
  cases hfind : (s.drop pos).idxOf? c with
  | none => exact absurd h (List.idxOf?_eq_none_iff.mp hfind)
  | some i => exact ⟨pos + i, by rw [findFrom, hfind, Option.map_some]⟩

/-- What follows the first occurrence does not matter. -/
theorem findFrom_append {c : Char} {s : Bytes} (h : c ∈ s) :
    ∃ i, ∀ x, findFrom c (s ++ x) 0 = some i := by
  cases hcut : splitFirst c s with
  | none => exact absurd h (splitFirst_eq_none_iff.mp hcut)
  | some cut =>
    obtain ⟨a, b⟩ := cut
    obtain ⟨rfl, ha⟩ := eq_append_of_splitFirst hcut
    refine ⟨0 + a.length, fun x => ?_⟩
    have hdrop : (a ++ c :: b ++ x).drop 0 = a ++ c :: (b ++ x) := by
      rw [List.drop_zero, List.append_assoc, List.cons_append]
    exact findFrom_eq_some hdrop ha

theorem findLast_eq {c : Char} {b : Bytes} (hb : c ∉ b) (a : Bytes) :
    findLast c (a ++ c :: b) = some a.length := by
  have hreverse : (a ++ c :: b).reverse = b.reverse ++ c :: a.reverse := by simp
  rw [findLast, hreverse, idxOf?_append_cons (by simpa using hb)]
  simp only [Option.map_some, List.length_append, List.length_cons, List.length_reverse]
  congr 1
  omega

theorem findLast_eq_none {c : Char} {s : Bytes} (h : c ∉ s) : findLast c s = none := by
  rw [findLast, List.idxOf?_eq_none_iff.mpr (by simpa using h), Option.map_none]

/-- The last occurrence. -/
theorem exists_last {c : Char} {s : Bytes} (h : c ∈ s) : ∃ a b, s = a ++ c :: b ∧ c ∉ b := by
  cases hcut : splitFirst c s.reverse with
  | none => exact absurd (List.mem_reverse.mpr h) (splitFirst_eq_none_iff.mp hcut)
  | some cut =>
    obtain ⟨b, a⟩ := cut
    obtain ⟨heq, hb⟩ := eq_append_of_splitFirst hcut
    refine ⟨a.reverse, b.reverse, ?_, by simpa using hb⟩
    rw [← List.reverse_reverse s, heq]
    simp

/-- What stands between a bracket and the last one. -/
def behind (post : Bytes) : Bytes :=
  match findLast ']' post with
  | none => []
  | some i => post.take i

theorem bracket_split (post : Bytes) :
    ∃ t rest, ']' :: post = t ++ ']' :: rest ∧ ']' ∉ rest ∧ t.drop 1 = behind post := by
  by_cases h : ']' ∈ post
  · obtain ⟨a, b, rfl, hb⟩ := exists_last h
    refine ⟨']' :: a, b, rfl, hb, ?_⟩
    rw [behind, findLast_eq hb]
    exact List.take_left.symm
  · refine ⟨[], post, rfl, h, ?_⟩
    rw [behind, findLast_eq_none h]
    rfl

section Body

variable {pre hw : Bytes} (hpre : '[' ∉ pre) (hne : pre ≠ []) (hhw : ' ' ∉ hw)

include hpre hne in
/-- The tag does not depend on what stands behind the blank. -/
theorem bodyTag_eq : ∃ tag, ∀ x, ']' ∈ x →
    bodyTag (pre ++ '[' :: (hw ++ ' ' :: x)) = some (tag, pre.length) := by
  have hblank : ' ' ∈ pre ++ '[' :: (hw ++ [' ']) :=
    List.mem_append_right _ (List.mem_cons_of_mem _ (List.mem_append_right _ List.mem_cons_self))
  obtain ⟨stop, hstop⟩ := findFrom_append hblank
  refine ⟨match findLast ' ' (pre.take (sizeSub pre.length 1)) with
    | some tag_index => ((pre.take (sizeSub pre.length 1)).drop (tag_index + 1)).take
        (sizeSub stop tag_index)
    | none => pre.take (sizeSub pre.length 1), fun x hx => ?_⟩
  have hopen : findFrom '[' (pre ++ '[' :: (hw ++ ' ' :: x)) 0 = some pre.length := by
    have hfind := findFrom_eq_some (List.drop_zero (l := pre ++ '[' :: (hw ++ ' ' :: x))) hpre
    rwa [Nat.zero_add] at hfind
  obtain ⟨close, hclose⟩ : ∃ i, findFrom ']' (pre ++ '[' :: (hw ++ ' ' :: x)) (pre.length + 1) = some i := by
    refine exists_findFrom ?_
    rw [← List.drop_drop, List.drop_left]
    exact List.mem_append_right _ (List.mem_cons_of_mem _ hx)
  have hfirst : findFrom ' ' (pre ++ '[' :: (hw ++ ' ' :: x)) 0 = some stop := by
    rw [← hstop x]
    simp
  have htake : (pre ++ '[' :: (hw ++ ' ' :: x)).take (sizeSub pre.length 1) =
      pre.take (sizeSub pre.length 1) := by
    have hpos : 1 ≤ pre.length := List.length_pos_of_ne_nil hne
    rw [sizeSub, if_pos hpos]
    exact List.take_append_of_le_length (Nat.sub_le _ _)
  rw [bodyTag, hopen, Option.bind_eq_bind, Option.bind_some, hclose, Option.bind_some, hfirst,
    Option.bind_some, htake]
  dsimp only
  cases findLast ' ' (pre.take (sizeSub pre.length 1)) <;> rfl

include hhw in
theorem bodyParts_eq {text rest : Bytes} (hrest : ']' ∉ rest) :
    bodyParts (pre ++ '[' :: (hw ++ ' ' :: (text ++ ']' :: rest))) pre.length = some (hw, text) := by
  have hdrop : (pre ++ '[' :: (hw ++ ' ' :: (text ++ ']' :: rest))).drop pre.length =
      ('[' :: hw) ++ ' ' :: (text ++ ']' :: rest) := List.drop_left
  have hfirst : findFrom ' ' (pre ++ '[' :: (hw ++ ' ' :: (text ++ ']' :: rest))) pre.length =
      some (pre.length + ('[' :: hw).length) := by
    refine findFrom_eq_some hdrop fun h => ?_
    rcases List.mem_cons.mp h with h | h
    · exact absurd h (by decide)
    · exact hhw h
  have hlast : findLast ']' (pre ++ '[' :: (hw ++ ' ' :: (text ++ ']' :: rest))) =
      some (pre ++ '[' :: (hw ++ ' ' :: text)).length := by
    rw [← findLast_eq hrest]
    simp
  have hhardware : (pre ++ '[' :: (hw ++ ' ' :: (text ++ ']' :: rest))).drop (pre.length + 1) =
      hw ++ ' ' :: (text ++ ']' :: rest) := by
    rw [← List.drop_drop, hdrop]
    rfl
  have htext : (pre ++ '[' :: (hw ++ ' ' :: (text ++ ']' :: rest))).drop
      (pre.length + ('[' :: hw).length + 1) = text ++ ']' :: rest := by
    rw [← List.drop_drop, ← List.drop_drop, hdrop, List.drop_left]
    rfl
  have hsize : sizeSub (sizeSub (pre.length + ('[' :: hw).length) pre.length) 1 = hw.length := by
    simp only [sizeSub, List.length_cons]
    split_ifs <;> omega
  have hsize' : sizeSub (pre ++ '[' :: (hw ++ ' ' :: text)).length
      (pre.length + ('[' :: hw).length + 1) = text.length := by
    simp only [sizeSub, List.length_append, List.length_cons]
    split_ifs <;> omega
  rw [bodyParts, hfirst, Option.bind_eq_bind, Option.bind_some, hlast, Option.bind_some, hhardware,
    htext, hsize, hsize', List.take_left, List.take_left]

end Body

-- ---------------------------------------------------------------------------
-- The fields of two messages
-- ---------------------------------------------------------------------------

theorem find?_foldl_erase (keys : List String) (v : SyslogMap) (key : String) :
    (keys.foldl OrderedMap.erase v).find? key = if key ∈ keys then none else v.find? key := by
  induction keys generalizing v with
  | nil => rfl
  | cons k keys ih =>
    rw [List.foldl_cons, ih, OrderedMap.find?_erase]
    by_cases hkey : key = k
    · simp [hkey]
    · simp [hkey]

theorem sameBut_addPairs {keys : List String} {v₁ v₂ : SyslogMap} (h : SameBut keys v₁ v₂)
    (int_fields : List String) (pairs : List (Bytes × Bytes)) :
    SameBut keys (addPairs int_fields v₁ pairs) (addPairs int_fields v₂ pairs) := by
  intro key hkey
  rw [find?_addPairs_or, find?_addPairs_or, h key hkey]

variable (uninit) in
theorem find?_received {key : String}
    (h : key ∉ ["ip", "timestamp", "facility", "severity"]) (ip : Bytes) (timestamp : Int)
    (v : SyslogMap) : (received uninit ip timestamp v).find? key = v.find? key := by
  simp only [List.mem_cons, List.not_mem_nil, or_false, not_or] at h
  obtain ⟨hip, htimestamp, hfacility, hseverity⟩ := h
  rw [received, OrderedMap.find?_insert, if_neg hseverity, OrderedMap.find?_insert,
    if_neg hfacility, OrderedMap.find?_insert, if_neg htimestamp, OrderedMap.find?_insert, if_neg hip]

theorem find?_eraseUnnecessary {key : String} (h : key ∉ "pid" :: unnecessary) (v : SyslogMap) :
    (eraseUnnecessary uninit v).find? key = v.find? key := by
  rw [List.mem_cons, not_or] at h
  have hfold : (unnecessary.foldl OrderedMap.erase v).find? key = v.find? key := by
    rw [find?_foldl_erase, if_neg h.2]
  rw [eraseUnnecessary]
  split
  · rw [OrderedMap.find?_erase, if_neg h.1, hfold]
  · exact hfold

theorem sameBut_received {v v' : SyslogMap} (h : SameBut ["body", "msglen"] v v') (ip ip' : Bytes)
    (timestamp timestamp' : Int) :
    SameBut ["body", "ip", "timestamp"] (eraseUnnecessary uninit (received uninit ip timestamp v))
      (eraseUnnecessary uninit (received uninit ip' timestamp' v')) := by
  have hfold : SameBut ["body", "ip", "timestamp"]
      (unnecessary.foldl OrderedMap.erase (received uninit ip timestamp v))
      (unnecessary.foldl OrderedMap.erase (received uninit ip' timestamp' v')) := by
    intro key hkey
    rw [find?_foldl_erase, find?_foldl_erase]
    by_cases herased : key ∈ unnecessary
    · rw [if_pos herased, if_pos herased]
    · simp only [List.mem_cons, List.not_mem_nil, or_false, not_or] at hkey
      have hne : ∀ k ∈ unnecessary, key ≠ k := fun k hk heq => herased (heq ▸ hk)
      have hreceived : key ∉ ["ip", "timestamp", "facility", "severity"] := by
        simp [hkey.2.1, hkey.2.2, hne "facility" (by decide), hne "severity" (by decide)]
      have hparsed : key ∉ ["body", "msglen"] := by
        simp [hkey.1, hne "msglen" (by decide)]
      rw [if_neg herased, if_neg herased, find?_received uninit hreceived,
        find?_received uninit hreceived, h key hparsed]
  have hpid : GetMapVal uninit (unnecessary.foldl OrderedMap.erase (received uninit ip timestamp v))
      "pid" (-1) = GetMapVal uninit
        (unnecessary.foldl OrderedMap.erase (received uninit ip' timestamp' v')) "pid" (-1) := by
    rw [GetMapVal, GetMapVal, hfold "pid" (by decide)]
  rw [eraseUnnecessary, eraseUnnecessary, hpid]
  split
  · exact hfold.erase "pid"
  · exact hfold

/-- The fields before those of the structured part. -/
def baseFields (uninit : String → Int) (tag hardware : Bytes) (v : SyslogMap) : SyslogMap :=
  (((eraseUnnecessary uninit v).erase "body").insert "tag" (.str tag)).insert "hardware" (.str hardware)

theorem parseFields_eq {v : SyslogMap} {body tag hardware text : Bytes} {tag_end : Nat}
    (hbody : v.find? "body" = some (.str body)) (htag : bodyTag body = some (tag, tag_end))
    (hparts : bodyParts body tag_end = some (hardware, text)) {pairs : List (Bytes × Bytes)}
    {ret : Bool} (hscan : Scan text pairs ret) :
    parseFields config uninit v = (config.GetMessageConfig tag).bind fun mc =>
      if !mc.process_and_store && !mc.forward && !mc.process_and_summarize then none
      else if ret then
        some ⟨tag, hardware, mc, addPairs mc.ints (baseFields uninit tag hardware v) pairs⟩
      else none := by
  have hvals : GetMapVals (eraseUnnecessary uninit v) "body" [] = body := by
    rw [GetMapVals, find?_eraseUnnecessary (by decide), hbody]
  rw [parseFields]
  dsimp only
  rw [hvals, htag, Option.bind_eq_bind, Option.bind_some]
  cases config.GetMessageConfig tag with
  | none => rfl
  | some mc =>
    simp only [Option.bind_eq_bind, Option.bind_some, hparts, ParseStructuredPart_scan hscan]
    rfl

-- ---------------------------------------------------------------------------
-- What the forwarded message says
-- ---------------------------------------------------------------------------

/-- The fields that `ProcessStructuredSyslog` hands over with a message: those of an accepted
syslog, which comes with its length or without. -/
def Accepted (uninit : String → Int) (v : SyslogMap) (message : Bytes) : Prop :=
  ∃ raw v₀ ip timestamp, WithLength raw message ∧ parse_syslog raw .empty = (v₀, true) ∧
    v = received uninit ip timestamp v₀

/-- No configured value contains a quote. -/
def PlainConfig (config : StructuredSyslogConfig) : Prop :=
  ∀ name hr, config.GetHostnameRecord name = some hr →
    '"' ∉ hr.tenant ∧ '"' ∉ hr.location ∧ '"' ∉ hr.device

/-- The message that is forwarded is accepted again, with the same tag and hardware, and with the
fields that the message had and its decorations. The address and the time are those of its sender. -/
def Carries (config : StructuredSyslogConfig) (uninit : String → Int) (v : SyslogMap)
    (message : Bytes) : Prop :=
  ∀ fwd p, decoratedForward config uninit v message = some fwd →
    parseFields config uninit v = some p →
    ∃ v', parse_syslog fwd .empty = (v', true) ∧ ∀ ip timestamp,
      ∃ p', parseFields config uninit (received uninit ip timestamp v') = some p' ∧
        p'.tag = p.tag ∧ p'.hardware = p.hardware ∧ ∀ key, key ≠ "ip" → key ≠ "timestamp" →
          p'.v.find? key =
            (addPairs p.mc.ints p.v (decorations config uninit p.v)).find? key

/-- The first bracket of the message stands behind the last field of its structured part, and no
decoration but the last brings one along. -/
structure Spliceable (message body : Bytes) (ds : List (Bytes × Bytes)) : Prop where
  /-- No length is left in front. -/
  priority : (skip message).head? = some '<'
  shape : ∃ pre hw part post pairs, body = pre ++ '[' :: (hw ++ ' ' :: (part ++ ']' :: post)) ∧
    pre ≠ [] ∧ '[' ∉ pre ∧ ' ' ∉ hw ∧ Closed part pairs ∧
    ']' ∉ message.take (message.length - (post.length + 1)) ∧
    -- the fields between this bracket and the last one have other names
    ∀ p ∈ pairsOf (behind post), ∀ d ∈ ds, p.1 ≠ d.1
  decorations : ∀ d ∈ ds.dropLast, Unbracketed d
  /-- The length of the new message is an `int`. -/
  length : message.length + (renderDecorations ds).length < 2 ^ 31

theorem not_mem_intText (n : Int) : '"' ∉ intText n := by
  have hdigits : ∀ m : Nat, '"' ∉ Nat.toDigits 10 m := by
    intro m h
    exact absurd (Nat.isDigit_of_mem_toDigits (by decide) (by decide) h) (by decide)
  unfold intText
  split
  · exact fun h => (List.mem_cons.mp h).elim (by decide) (hdigits _)
  · exact hdigits _

/-- A field that is none of the header's has no quote. -/
theorem not_mem_getMapVals {v : SyslogMap} {key : String} (hv : v.find? key = none)
    (int_fields : List String) {pairs : List (Bytes × Bytes)} (hpairs : ∀ p ∈ pairs, PlainPair p) :
    '"' ∉ GetMapVals (addPairs int_fields v pairs) key [] := by
  rw [GetMapVals, find?_addPairs_or, hv, Option.none_or]
  cases hp : pairs.find? fun p => String.ofList p.1 = key with
  | none => exact List.not_mem_nil
  | some p =>
    have hplain := (hpairs p (List.mem_of_find?_eq_some hp)).2
    rw [Option.map_some, pairHolder]
    by_cases hint : String.ofList p.1 ∈ int_fields
    · rw [if_pos hint]
      exact List.not_mem_nil
    · rw [if_neg hint]
      exact hplain

theorem not_mem_sla_profile {v : SyslogMap} (hrule : '"' ∉ GetMapVals v "sla-rule" [])
    (hname : '"' ∉ GetMapVals v "rule-name" []) : '"' ∉ sla_profile v := by
  rw [sla_profile]
  split
  · dsimp only
    split
    · decide
    · split
      · exact fun h => hname (List.mem_of_mem_drop h)
      · decide
  · exact hrule

theorem fieldPairs_plain {key : String} (hkey : '=' ∉ key.toList) {val : Bytes} (hval : '"' ∉ val) :
    ∀ d ∈ fieldPairs key val, PlainPair d := by
  rw [fieldPairs]
  split
  · exact fun _ h => absurd h List.not_mem_nil
  · exact List.forall_mem_singleton.mpr ⟨hkey, hval⟩

theorem pairsOf_plain (text : Bytes) : ∀ d ∈ pairsOf text, PlainPair d := by
  obtain ⟨ret, hscan, -⟩ := parseStructuredPart_eq [] text
  exact scan_plain hscan

theorem decorations_plain (hconfig : PlainConfig config) {v : SyslogMap}
    (hsla : '"' ∉ sla_profile v) : ∀ d ∈ decorations config uninit v, PlainPair d := by
  have hkeys : '=' ∉ "total-bytes".toList ∧ '=' ∉ "sla-profile".toList := by decide
  have hmessage : ∀ d ∈ [("total-bytes".toList, intText (total_bytes uninit v)),
      ("sla-profile".toList, sla_profile v)], PlainPair d :=
    List.forall_mem_cons.mpr ⟨⟨hkeys.1, not_mem_intText _⟩,
      List.forall_mem_singleton.mpr ⟨hkeys.2, hsla⟩⟩
  have hparts : ∀ text : Option Bytes, ∀ d ∈ (text.map pairsOf).getD [], PlainPair d := by
    intro text
    cases text with
    | none => exact fun _ h => absurd h List.not_mem_nil
    | some text => exact pairsOf_plain text
  rw [decorations, decorationGroups]
  cases hrecord : config.GetHostnameRecord (GetMapVals v "hostname" []) with
  | none =>
    rw [List.flatten_singleton]
    exact hmessage
  | some hr =>
    obtain ⟨htenant, hlocation, hdevice⟩ := hconfig _ hr hrecord
    have htags : ∀ d ∈ ((config.GetTenantRecord hr.tenant).map fun tr => pairsOf tr.tags).getD [],
        PlainPair d := by
      have h := hparts ((config.GetTenantRecord hr.tenant).map TenantRecord.tags)
      rwa [Option.map_map] at h
    dsimp only
    intro d hd
    simp only [List.flatten_cons, List.flatten_nil, List.append_nil] at hd
    rcases List.mem_append.mp hd with hd | hd
    · rcases List.mem_append.mp hd with hd | hd
      · exact hmessage d hd
      · rcases List.mem_append.mp hd with hd | hd
        · exact fieldPairs_plain (by decide) htenant d hd
        · rcases List.mem_append.mp hd with hd | hd
          · exact fieldPairs_plain (by decide) hlocation d hd
          · exact fieldPairs_plain (by decide) hdevice d hd
    · rcases List.mem_append.mp hd with hd | hd
      · exact pairsOf_plain _ d hd
      · rcases List.mem_append.mp hd with hd | hd
        · exact htags d hd
        · exact hparts _ d hd

/-- The message goes out with its length, decorated. -/
theorem decoratedForward_eq {v : SyslogMap} {message fwd : Bytes} {p : Parsed}
    (h : decoratedForward config uninit v message = some fwd)
    (hp : parseFields config uninit v = some p) :
    ∃ msg, decorateGroups (some message) (decorationGroups config uninit p.v) = some msg ∧
      fwd = Nat.toDigits 10 msg.length ++ ' ' :: msg := by
  rw [decoratedForward, hp, Option.bind_eq_bind, Option.bind_some] at h
  split at h
  · cases h
  · split at h
    · cases h
    · split at h
      · obtain ⟨⟨v', msg⟩, hdecorate, h⟩ := Option.bind_eq_some_iff.mp h
        have hmsg := decorate_msg hdecorate
        dsimp only at h
        split at h
        · rename_i hforward
          simp only [Bool.and_eq_true] at hforward
          rw [if_pos hforward.1.1] at hmsg
          obtain ⟨msg, rfl, rfl⟩ := Option.map_eq_some_iff.mp h
          exact ⟨msg, hmsg.symm, rfl⟩
        · cases h
      · cases h

/-- A field that the header does not have. -/
theorem find?_baseFields {raw : Bytes} {v₀ : SyslogMap} (h : parse_syslog raw .empty = (v₀, true))
    {key : String} (hkey : key ∉ intKeys ++ ["hostname", "tz", "prog", "body", "ip", "timestamp",
      "facility", "severity", "tag", "hardware"]) (tag hardware ip : Bytes) (timestamp : Int) :
    (baseFields uninit tag hardware (received uninit ip timestamp v₀)).find? key = none := by
  have hreads := parse_syslog_reads raw .empty
  rw [h] at hreads
  simp only [intKeys, List.mem_append, List.mem_cons, List.not_mem_nil, or_false, not_or] at hkey
  have herased : key ∉ "pid" :: unnecessary := by simp [unnecessary, hkey]
  have hreceived : key ∉ ["ip", "timestamp", "facility", "severity"] := by simp [hkey]
  have hnone : v₀.find? key = none := by
    by_contra hsome
    obtain ⟨x, hx⟩ := Option.ne_none_iff_exists'.mp hsome
    rcases hreads.fields key x hx with hempty | hfield
    · cases hempty
    · cases x with
      | int n => exact absurd hfield.1 (by simp [intKeys, hkey])
      | str s => exact absurd hfield.1 (by simp [hkey])
  rw [baseFields, OrderedMap.find?_insert, if_neg (by simp [hkey]), OrderedMap.find?_insert,
    if_neg (by simp [hkey]), OrderedMap.find?_erase, if_neg (by simp [hkey]),
    find?_eraseUnnecessary herased, find?_received uninit hreceived, hnone]

theorem sameBut_baseFields {v v' : SyslogMap} (h : SameBut ["body", "msglen"] v v') (ip ip' : Bytes)
    (timestamp timestamp' : Int) (tag hardware : Bytes) :
    SameBut ["ip", "timestamp"] (baseFields uninit tag hardware (received uninit ip timestamp v))
      (baseFields uninit tag hardware (received uninit ip' timestamp' v')) :=
  ((sameBut_received h ip ip' timestamp timestamp').erased.insert "tag" _).insert "hardware" _

/-- A body with any closed fields in front of the bracket: the tag and the hardware are the same,
and so are the fields behind the bracket. -/
theorem parseFields_splice (config : StructuredSyslogConfig) (uninit : String → Int) {pre hw : Bytes}
    (hpre : '[' ∉ pre) (hne : pre ≠ []) (hhw : ' ' ∉ hw) (post : Bytes) :
    ∃ (tag : Bytes) (ret : Bool), ∀ v part pairs, Closed part pairs →
      v.find? "body" = some (.str (pre ++ '[' :: (hw ++ ' ' :: (part ++ ']' :: post)))) →
      parseFields config uninit v = (config.GetMessageConfig tag).bind fun mc =>
        if !mc.process_and_store && !mc.forward && !mc.process_and_summarize then none
        else if ret then
          some ⟨tag, hw, mc, addPairs mc.ints (baseFields uninit tag hw v)
            (pairs ++ pairsOf (behind post))⟩
        else none := by
  obtain ⟨t, rest, hsplit, hrest, ht⟩ := bracket_split post
  obtain ⟨tag, htag⟩ : ∃ tag, ∀ x, ']' ∈ x →
      bodyTag (pre ++ '[' :: (hw ++ ' ' :: x)) = some (tag, pre.length) := bodyTag_eq hpre hne
  obtain ⟨ret, hbehind, -⟩ := parseStructuredPart_eq [] (behind post)
  refine ⟨tag, ret, fun v part pairs hclosed hbody => ?_⟩
  have hscan : Scan (part ++ t) (pairs ++ pairsOf (behind post)) ret :=
    hclosed.scan (ht.symm ▸ hbehind)
  have hparts : bodyParts (pre ++ '[' :: (hw ++ ' ' :: (part ++ ']' :: post))) pre.length =
      some (hw, part ++ t) := by
    have hpart : part ++ ']' :: post = (part ++ t) ++ ']' :: rest := by
      rw [hsplit, List.append_assoc]
    rw [hpart]
    exact bodyParts_eq hhw hrest
  exact parseFields_eq hbody (htag _ (List.mem_append_right part List.mem_cons_self)) hparts hscan

theorem closed_plain {text : Bytes} {pairs : List (Bytes × Bytes)} (h : Closed text pairs) :
    ∀ p ∈ pairs, PlainPair p := by
  have hscan := h.scan (t := []) (.done List.not_mem_nil)
  rw [List.append_nil, List.append_nil] at hscan
  exact scan_plain hscan

theorem carries_of_spliceable {config : StructuredSyslogConfig} {uninit : String → Int}
    (hconfig : PlainConfig config) {v : SyslogMap} {message : Bytes}
    (hv : Accepted uninit v message)
    (h : ∀ p, parseFields config uninit v = some p →
      Spliceable message (GetMapVals v "body" []) (decorations config uninit p.v)) :
    Carries config uninit v message := by
  intro fwd p hfwd hp
  have hs := h p hp
  obtain ⟨raw, v₀, ip₀, timestamp₀, hraw, hparse, rfl⟩ := hv
  obtain ⟨body, ⟨front, rfl⟩, hbody⟩ := body_suffix hraw hs.priority hparse
  have hbody₀ : (received uninit ip₀ timestamp₀ v₀).find? "body" = some (.str body) :=
    (find?_received uninit (by decide) _ _ _).trans hbody
  obtain ⟨pre, hw, part, post, pairs, hshape, hne, hpre, hhw, hclosed, hfirst, hnames⟩ := hs.shape
  rw [GetMapVals, hbody₀] at hshape
  obtain rfl : body = _ := hshape
  -- the fields of the message
  obtain ⟨tag, ret, hread⟩ := parseFields_splice config uninit hpre hne hhw post
  have hpairs : ∀ p ∈ pairs ++ pairsOf (behind post), PlainPair p :=
    List.forall_mem_append.mpr ⟨closed_plain hclosed, pairsOf_plain _⟩
  have hp' := (hread _ _ _ hclosed hbody₀).symm.trans hp
  obtain ⟨mc, hmc, hp'⟩ := Option.bind_eq_some_iff.mp hp'
  split at hp'
  · cases hp'
  rename_i hprocess
  split at hp'
  swap
  · cases hp'
  rename_i hret
  obtain rfl := Option.some.inj hp'
  have hplain : ∀ d ∈ decorations config uninit (addPairs mc.ints
      (baseFields uninit tag hw (received uninit ip₀ timestamp₀ v₀))
      (pairs ++ pairsOf (behind post))), PlainPair d :=
    decorations_plain hconfig (not_mem_sla_profile
      (not_mem_getMapVals (find?_baseFields hparse (by decide) _ _ _ _) _ hpairs)
      (not_mem_getMapVals (find?_baseFields hparse (by decide) _ _ _ _) _ hpairs))
  -- the message that is sent
  obtain ⟨msg, hmsg, rfl⟩ := decoratedForward_eq hfwd hp
  obtain ⟨part', hpart⟩ := hclosed.ends
  have htext : ∀ q, pre ++ '[' :: (hw ++ ' ' :: (part ++ q)) =
      (pre ++ '[' :: (hw ++ ' ' :: part')) ++ '"' :: q := by
    intro q
    rw [hpart]
    simp
  have hbracketed : Bracketed (pre ++ '[' :: (hw ++ ' ' :: part')) :=
    ⟨pre, hw ++ ' ' :: part', rfl, List.mem_append_right hw List.mem_cons_self⟩
  have hmessage : ∀ q, front ++ (pre ++ '[' :: (hw ++ ' ' :: (part ++ q))) =
      (front ++ (pre ++ '[' :: (hw ++ ' ' :: part))) ++ q := by
    intro q
    simp
  rw [hmessage] at hfirst hmsg
  have hlength : (front ++ (pre ++ '[' :: (hw ++ ' ' :: part)) ++ ']' :: post).length -
      (post.length + 1) = (front ++ (pre ++ '[' :: (hw ++ ' ' :: part))).length := by
    rw [List.length_append, List.length_cons, Nat.add_sub_cancel]
  rw [hlength, List.take_left] at hfirst
  rw [decorateGroups_splice hs.decorations hfirst] at hmsg
  have hmsg := Option.some.inj hmsg
  rw [List.append_assoc, ← hmessage, htext, ← List.append_assoc] at hmsg
  -- the message that is received
  have hlt : msg.length < 2 ^ 31 := by
    refine lt_of_eq_of_lt ?_ hs.length
    rw [← hmsg, htext]
    simp only [List.length_append, List.length_cons, decorations]
    omega
  rw [htext, ← List.append_assoc] at hraw
  have hhead := hs.priority
  rw [htext, ← List.append_assoc] at hhead
  rw [htext] at hbody
  obtain ⟨v', hv', hsame, hbody'⟩ := parse_syslog_splice hraw hhead hparse hbody hbracketed hlt
  refine ⟨v', ?_, fun ip timestamp => ?_⟩
  · rw [← hmsg] at hv' ⊢
    exact hv'
  have hbody' : (received uninit ip timestamp v').find? "body" = some (.str (pre ++ '[' :: (hw ++ ' ' ::
      (part ++ renderDecorations (decorationGroups config uninit (addPairs mc.ints
        (baseFields uninit tag hw (received uninit ip₀ timestamp₀ v₀))
        (pairs ++ pairsOf (behind post)))).flatten ++ ']' :: post)))) := by
    rw [find?_received uninit (by decide), hbody', ← htext, List.append_assoc]
  refine ⟨⟨tag, hw, mc, addPairs mc.ints (baseFields uninit tag hw (received uninit ip timestamp v'))
    (pairs ++ decorations config uninit (addPairs mc.ints
      (baseFields uninit tag hw (received uninit ip₀ timestamp₀ v₀))
      (pairs ++ pairsOf (behind post))) ++ pairsOf (behind post))⟩,
    (hread _ _ _ (hclosed.decorations hplain) hbody').trans ?_, rfl, rfl, ?_⟩
  · rw [hmc, Option.bind_some, if_neg hprocess, if_pos hret]
  intro key hip htimestamp
  have hkey : key ∉ ["ip", "timestamp"] := by simp [hip, htimestamp]
  have hbase : SameBut ["ip", "timestamp"]
      (baseFields uninit tag hw (received uninit ip₀ timestamp₀ v₀))
      (baseFields uninit tag hw (received uninit ip timestamp v')) :=
    sameBut_baseFields hsame ip₀ ip timestamp₀ timestamp tag hw
  calc (addPairs mc.ints (baseFields uninit tag hw (received uninit ip timestamp v'))
        (pairs ++ decorations config uninit _ ++ pairsOf (behind post))).find? key
      = (addPairs mc.ints (baseFields uninit tag hw (received uninit ip₀ timestamp₀ v₀))
        (pairs ++ decorations config uninit _ ++ pairsOf (behind post))).find? key :=
        (sameBut_addPairs hbase mc.ints _ key hkey).symm
    _ = (addPairs mc.ints (addPairs mc.ints
        (baseFields uninit tag hw (received uninit ip₀ timestamp₀ v₀)) pairs)
        (decorations config uninit _ ++ pairsOf (behind post))).find? key := by
        rw [List.append_assoc, addPairs_append]
    _ = (addPairs mc.ints (addPairs mc.ints
        (baseFields uninit tag hw (received uninit ip₀ timestamp₀ v₀)) pairs)
        (pairsOf (behind post) ++ decorations config uninit _)).find? key :=
        find?_addPairs_comm _ _ hnames key
    _ = _ := by
        rw [addPairs_append mc.ints _ (pairsOf (behind post)) (decorations config uninit _),
          ← addPairs_append mc.ints _ pairs (pairsOf (behind post))]

section Samples

/-- One message is forwarded, and one host is known, with its tenant and a profile. -/
def sampleConfig : StructuredSyslogConfig where
  GetMessageConfig tag :=
    if tag = ['T'] then
      some { process_and_store := false, process_and_summarize := false, forward := true,
             process_before_forward := true, ints := ["bytes-from-client"] }
    else none
  GetHostnameRecord name :=
    if name = "vsrx".toList then
      some { tenant := "t1".toList, location := "l".toList, device := "d".toList,
             tags := "site=\"s1\"".toList, linkmap := .empty }
    else none
  GetTenantRecord name :=
    if name = "t1".toList then
      some { tenantaddr := [], tags := "dept=\"x\"".toList, dscpmap_ipv4 := .empty,
             dscpmap_ipv6 := .empty }
    else none
  GetSlaProfileRecord name :=
    if name = "t1/d/gold".toList then some "loss=\"1\" note=\"a]b\"".toList else none
  get_ip_version _ := 4

theorem sampleConfig_plain : PlainConfig sampleConfig := by
  intro name hr h
  simp only [sampleConfig] at h
  split at h
  · obtain rfl := Option.some.inj h
    decide
  · cases h

/-- The fields of a message that comes without its length. -/
def sampleFields (message : Bytes) : SyslogMap :=
  received (fun _ => 0) [] 0 (parse_syslog message .empty).1

theorem sample_accepted {message : Bytes} (h : (parse_syslog message .empty).2 = true) :
    Accepted (fun _ => 0) (sampleFields message) message :=
  ⟨message, (parse_syslog message .empty).1, [], 0, ⟨[], [], rfl, by simp, by simp⟩,
    Prod.ext rfl h, rfl⟩

def plainMessage : Bytes :=
  "<1>Jan 1 1:1:1 vsrx T [w sla-rule=\"gold\" bytes-from-client=\"3\"]".toList

/-- The bracket of the program part is the first one. -/
def pidMessage : Bytes := "<1>Jan 1 1:1:1 h p[1]: T [w k=\"v\"]".toList

/-- The decorations of the message, of the host's record, of its tags, of the tenant's tags
and of the profile; only the last one has a bracket. -/
def plainDecorations : List (Bytes × Bytes) :=
  [("total-bytes".toList, "3".toList), ("sla-profile".toList, "gold".toList),
    ("tenant".toList, "t1".toList), ("location".toList, "l".toList), ("device".toList, "d".toList),
    ("site".toList, "s1".toList), ("dept".toList, "x".toList), ("loss".toList, "1".toList),
    ("note".toList, "a]b".toList)]

theorem plainMessage_spliceable (p : Parsed)
    (hp : parseFields sampleConfig (fun _ => 0) (sampleFields plainMessage) = some p) :
    Spliceable plainMessage (GetMapVals (sampleFields plainMessage) "body" [])
      (decorations sampleConfig (fun _ => 0) p.v) := by
  have hds : (parseFields sampleConfig (fun _ => 0) (sampleFields plainMessage)).map
      (fun p => decorations sampleConfig (fun _ => 0) p.v) = some plainDecorations := by
    decide +kernel
  rw [hp, Option.map_some] at hds
  rw [Option.some.inj hds]
  have hbody : GetMapVals (sampleFields plainMessage) "body" [] =
      ['T', ' '] ++ '[' :: (['w'] ++ ' ' ::
        ("sla-rule=\"gold\" bytes-from-client=\"3\"".toList ++ ']' :: [])) := by decide +kernel
  have hlast : Closed ("bytes-from-client".toList ++ '=' :: '"' :: (['3'] ++ ['"']))
      [("bytes-from-client".toList, ['3'])] := .last (by decide) (by decide)
  have hclosed : Closed "sla-rule=\"gold\" bytes-from-client=\"3\"".toList
      [("sla-rule".toList, "gold".toList), ("bytes-from-client".toList, ['3'])] :=
    @Closed.pair "sla-rule".toList "gold".toList _ '"' ' ' _ (by decide) (by decide) hlast
  exact ⟨by decide +kernel, ⟨['T', ' '], ['w'], _, [], _, hbody, by decide, by decide, by decide,
    hclosed, by decide +kernel, fun p hp => absurd hp List.not_mem_nil⟩, by decide +kernel,
    by decide +kernel⟩

theorem carries_plainMessage :
    (decoratedForward sampleConfig (fun _ => 0) (sampleFields plainMessage) plainMessage).isSome ∧
    Carries sampleConfig (fun _ => 0) (sampleFields plainMessage) plainMessage :=
  ⟨by decide +kernel, carries_of_spliceable sampleConfig_plain (sample_accepted (by decide +kernel))
    plainMessage_spliceable⟩

/-- With `prog[pid]:` the decorations are written into the header. -/
theorem not_carries : ¬ ∀ config uninit v message, PlainConfig config → Accepted uninit v message →
    Carries config uninit v message := by
  intro hclaim
  have hcarries := hclaim sampleConfig (fun _ => 0) (sampleFields pidMessage) pidMessage
    sampleConfig_plain (sample_accepted (by decide +kernel))
  have hfwd : decoratedForward sampleConfig (fun _ => 0) (sampleFields pidMessage) pidMessage =
      some "72 <1>Jan 1 1:1:1 h p[1 total-bytes=\"0\" sla-profile=\"DEFAULT\"]: T [w k=\"v\"]".toList := by
    decide +kernel
  have hsome : (parseFields sampleConfig (fun _ => 0) (sampleFields pidMessage)).isSome = true := by
    decide +kernel
  obtain ⟨p, hp⟩ := Option.isSome_iff_exists.mp hsome
  obtain ⟨v', hv', hread⟩ := hcarries _ p hfwd hp
  obtain ⟨p', hp', -⟩ := hread [] 0
  have hnone : (parseFields sampleConfig (fun _ => 0) (sampleFields
      "72 <1>Jan 1 1:1:1 h p[1 total-bytes=\"0\" sla-profile=\"DEFAULT\"]: T [w k=\"v\"]".toList)).isNone =
      true := by decide +kernel
  rw [sampleFields, hv', hp'] at hnone
  cases hnone

end Samples

end DecoratedForward

end TfAnalytics.Collector
