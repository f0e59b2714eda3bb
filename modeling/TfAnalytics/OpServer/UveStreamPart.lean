import TfAnalytics.Lib.Delimited
import TfAnalytics.OpServer.AlarmGen

/-!
# Analytics API — streaming a partition of the aggregated UVEs

`UveStreamPart` (partition_handler.py) reads the aggregated UVEs of one partition and
then follows the notifications that the alarm generator publishes for it. What it
reads goes to a callback, after filters on the table, the key and the struct type,
and after a check that the user may read the UVE. The values for a batch of
notifications are read in one pipeline and taken from its answers by a running index.

An exception ends the processing of a batch; `Except.error` has what was done before.

* `syncpart_permitted`: what is reported at the start is permitted;
* `stream_permitted`: and so is what is reported for a batch of notifications, when no
  denied element comes before another one that is read.
-/

namespace TfAnalytics.OpServer

open TfAnalytics.Lib

-- ---------------------------------------------------------------------------
-- Permissions
-- ---------------------------------------------------------------------------

structure ShareItem where
  tenant : String
  tenant_access : Nat

structure Perms2 where
  owner : String
  owner_access : Nat
  global_access : Nat
  share : List ShareItem

structure Project where
  id : String
  name : String
  domain_id : String

/-- `token_info`: whether it has a token, and whether that has a project. -/
structure TokenInfo where
  token : Option (Option Project)

structure Token where
  is_global_read_only_role : Bool
  token_info : Option TokenInfo

/-- What other libraries do with texts. `none` stands for an exception. -/
structure Libraries (J : Type) where
  /-- `json.loads`; the inner `none` is the JSON null -/
  loads : String → Option (Option J)
  /-- the empty dict -/
  emptyDict : J
  /-- `elements.perms2` of the text of a `ContrailConfig` -/
  perms2 : String → Option Perms2
  /-- `cfgm_common.utils.shareinfo_from_perms2_tenant` -/
  shareinfo_from_perms2_tenant : String → Option (String × String)

/-- `replace('-', '')`. -/
def withoutDashes (text : String) : String := String.ofList (text.toList.filter (· ≠ '-'))

section

variable {J : Type} (lib : Libraries J)

/-- The access of the first item that shares with the tenant or its domain. -/
def sharedAccess (tenant domain : String) : List ShareItem → Option (Option Nat)
  | [] => some none
  | item :: rest => do
    let (share_type, share_uuid) ← lib.shareinfo_from_perms2_tenant item.tenant
    let share_uuid := withoutDashes share_uuid
    if (share_type = "tenant" ∧ tenant = share_uuid) ∨ (share_type = "domain" ∧ domain = share_uuid)
    then some (some item.tenant_access)
    else sharedAccess tenant domain rest

def projectPermitted (perms2 : Perms2) (project : Project) : Option Bool := do
  let owner := withoutDashes perms2.owner
  let tenant := withoutDashes project.id
  let perms := perms2.owner_access <<< 6 ||| perms2.global_access
  let mask := if tenant = owner then 0o7 ||| 0o700 else 0o7
  let shared ← sharedAccess lib tenant project.domain_id perms2.share
  let (perms, mask) :=
    match shared with
    | none => (perms, mask)
    | some tenant_access => (perms ||| tenant_access <<< 3, mask ||| 0o070)
  let mode := 4
  let mode_mask := mode ||| mode <<< 3 ||| mode <<< 6
  some (mask &&& perms &&& mode_mask ≠ 0)

/-- May the user read a UVE with these structs? -/
def is_uve_read_permitted (token : Option Token) (uves : OrderedMap String String) : Option Bool :=
  match token with
  | none => some true
  | some token =>
    if token.is_global_read_only_role then some true
    else
      match uves.find? "ContrailConfig" with
      | none => some false
      | some cc => do
        let perms2 ← lib.perms2 cc
        let token_info ← token.token_info
        match token_info.token with
        | none | some none => some false
        | some (some project) => projectPermitted lib perms2 project

end

-- ---------------------------------------------------------------------------
-- The part
-- ---------------------------------------------------------------------------

/-- An empty filter lets everything pass. `pattern.match` is a function. -/
structure UveStreamPart (J : Type) where
  _partno : Nat
  instance_id : String
  _content : Bool
  _tablefilt : List String
  _cfilter : List String
  _patterns : List (String → Bool)
  _token : Option Token
  lib : Libraries J

/-- A call of the callback. -/
structure StreamCall (J : Type) where
  key : String
  typ : Option String
  value : Option J

/-- The structs of each UVE as they were last read. -/
abbrev UveCache := OrderedMap String (OrderedMap String String)

/-- `_uvecache`, and the calls made so far. -/
structure Stream (J : Type) where
  _uvecache : UveCache
  calls : List (StreamCall J)

/-- An element of a notification. -/
structure Notif where
  key : String
  typ : Option String
  deriving DecidableEq

/-- `key.split(":", 1)`, as table and bare key. -/
def splitKey (key : String) : Option (String × String) :=
  (splitFirst ':' key.toList).map fun p => (String.ofList p.1, String.ofList p.2)

namespace UveCache

def structs (cache : UveCache) (key : String) : OrderedMap String String :=
  (cache.find? key).getD .empty

/-- What was read of one struct is remembered. -/
def learn (cache : UveCache) (key typ : String) : Option String → UveCache
  | none => cache.assign key ((cache.structs key).erase typ)
  | some vjson => cache.assign key ((cache.structs key).assign typ vjson)

end UveCache

namespace UveStreamPart

variable {J : Type} (p : UveStreamPart J)

def agPartKeys : String := "AGPARTKEYS:" ++ p.instance_id ++ ":" ++ toString p._partno

def agPartValues (key : String) : String :=
  "AGPARTVALUES:" ++ p.instance_id ++ ":" ++ toString p._partno ++ ":" ++ key

/-- The filters on the table and the key. -/
def keyPasses (key : String) : Option Bool :=
  (splitKey key).map fun split =>
    (p._tablefilt.isEmpty || split.1 ∈ p._tablefilt) &&
      (p._patterns.isEmpty || p._patterns.any fun pattern => pattern split.2)

/-- The filter on the type; a UVE that is gone has none. -/
def typePasses (typ : Option String) : Bool :=
  p._cfilter.isEmpty || typ.any fun typ => typ ∈ p._cfilter

def «callback» (s : Stream J) (key : String) (typ : Option String) (value : Option J) : Stream J :=
  { s with calls := s.calls ++ [⟨key, typ, value⟩] }

-- ---------------------------------------------------------------------------
-- syncpart
-- ---------------------------------------------------------------------------

/-- One struct of a UVE that is read whole. -/
def syncStruct (key : String) (s : Stream J) (e : String × String) :
    Except (Stream J) (Stream J) :=
  let s := { s with _uvecache := s._uvecache.learn key e.1 (some e.2) }
  if p.typePasses (some e.1) then
    match p.lib.loads e.2 with
    | none => .error s
    | some value => .ok (callback s key (some e.1) value)
  else .ok s

def syncType (key : String) (s : Stream J) (telem : String) : Stream J :=
  if p.typePasses (some telem) then callback s key (some telem) (some p.lib.emptyDict) else s

/-- One UVE, with the answer to `hgetall` (or its fields, for `hkeys`). -/
def syncUve (s : Stream J) (e : String × List (String × String)) : Except (Stream J) (Stream J) :=
  if p._content then
    match is_uve_read_permitted p.lib p._token (.ofList e.2) with
    | none => .error s
    | some false => .ok s
    | some true => e.2.foldlM (p.syncStruct e.1) s
  else .ok ((e.2.map Prod.fst).foldl (p.syncType e.1) s)

/-- `keys` is what `smembers` answered, before the UVEs are read from `redish`. -/
def syncpart (keys : List String) (redish : Redis) (s : Stream J) : Except (Stream J) (Stream J) :=
  match keys.filterM p.keyPasses with
  | none => .error s
  | some lkeys =>
    (lkeys.map fun key => (key, redish.hgetall (p.agPartValues key))).foldlM p.syncUve s

-- ---------------------------------------------------------------------------
-- Notifications
-- ---------------------------------------------------------------------------

/-- An answer of the pipeline: to `exists`, or to `hget`. -/
inductive Answer where
  | «exists» (found : Bool)
  | value (vjson : Option String)

def readElem (lredis : Redis) (elem : Notif) : Answer :=
  match elem.typ with
  | none => .exists (lredis.exists (p.agPartValues elem.key))
  | some typ => .value (lredis.hget (p.agPartValues elem.key) typ)

/-- `vdata`: a struct that is gone has no value. -/
def parseValue : Option String → Option (Option J)
  | none => some none
  | some vjson => p.lib.loads vjson

/-- The answer is text or nothing; `json.loads` does not take the answer of `exists`. -/
def processStruct (pperes : List Answer) (acc : Stream J × Nat) (key typ : String) :
    Except (Stream J) (Stream J × Nat) :=
  match pperes[acc.2]? with
  | none | some (.exists _) => .error acc.1
  | some (.value vjson) =>
    match p.parseValue vjson with
    | none => .error acc.1
    | some vdata =>
      let s := { acc.1 with _uvecache := acc.1._uvecache.learn key typ vjson }
      match is_uve_read_permitted p.lib p._token (s._uvecache.structs key) with
      | none => .error s
      -- The index stays where it is.
      | some false => .ok (s, acc.2)
      | some true => .ok (callback s key (some typ) vdata, acc.2 + 1)

def processElem (pperes : List Answer) (acc : Stream J × Nat) (elem : Notif) :
    Except (Stream J) (Stream J × Nat) :=
  match elem.typ with
  | none => .ok (callback acc.1 elem.key none none, acc.2 + 1)
  | some typ =>
    if p._content then p.processStruct pperes acc elem.key typ
    else .ok (callback acc.1 elem.key (some typ) (some p.lib.emptyDict), acc.2 + 1)

/-- The elements that pass the filters. -/
def passes (elem : Notif) : Option Bool :=
  (p.keyPasses elem.key).map fun b => b && p.typePasses elem.typ

/-- A notification: the elements that pass are read at once, then processed in turn. -/
def processBatch (lredis : Redis) (elems : List Notif) (s : Stream J) :
    Except (Stream J) (Stream J) :=
  match elems.filterM p.passes with
  | none => .error s
  | some lelems =>
    (lelems.foldlM (p.processElem (lelems.map (p.readElem lredis))) (s, 0)).map Prod.fst

end UveStreamPart

-- ---------------------------------------------------------------------------
-- What may be reported
-- ---------------------------------------------------------------------------

/-- What was done, whether or not an exception ended it. -/
def doneBy {σ : Type} : Except σ σ → σ
  | .ok s => s
  | .error s => s

namespace UveStreamPart

variable {J : Type} (p : UveStreamPart J)

/-- What is known of the UVEs after some elements, each with its own answer. -/
def knownAfter (lredis : Redis) (cache : UveCache) (elems : List Notif) : UveCache :=
  elems.foldl (fun cache elem =>
    match elem.typ with
    | none => cache
    | some typ => cache.learn elem.key typ (lredis.hget (p.agPartValues elem.key) typ)) cache

/-- Whether the UVE of the last of these elements may be read, by what is known of it
then; `none` is an exception. -/
def permittedAt (lredis : Redis) (cache : UveCache) (pre : List Notif) (elem : Notif) :
    Option Bool :=
  is_uve_read_permitted p.lib p._token
    ((p.knownAfter lredis cache (pre ++ [elem])).structs elem.key)

/-- The element ends the batch: its value cannot be parsed, or its UVE not be checked. -/
def RaisesAt (lredis : Redis) (cache : UveCache) (pre : List Notif) (elem : Notif) : Prop :=
  ∃ typ, elem.typ = some typ ∧
    (p.parseValue (lredis.hget (p.agPartValues elem.key) typ) = none ∨
      p.permittedAt lredis cache pre elem = none)

/-- None of these elements ends the batch. -/
def NoneRaises (lredis : Redis) (cache : UveCache) (elems : List Notif) : Prop :=
  ∀ pre elem, pre ++ [elem] <+: elems → ¬ p.RaisesAt lredis cache pre elem

/-- A struct that is reported for a batch is an element of it whose UVE may be read,
with the value that was read for that key and type. -/
def Reported (lredis : Redis) (cache : UveCache) (lelems : List Notif) (call : StreamCall J) : Prop :=
  ∀ typ, call.typ = some typ → ∃ pre post, lelems = pre ++ ⟨call.key, some typ⟩ :: post ∧
    p.parseValue (lredis.hget (p.agPartValues call.key) typ) = some call.value ∧
    p.permittedAt lredis cache pre ⟨call.key, some typ⟩ = some true

/-- What the callback gets for a batch is permitted and right. -/
def BatchPermitted (lredis : Redis) (elems : List Notif) (cache : UveCache) : Prop :=
  ∀ lelems, elems.filterM p.passes = some lelems →
    ∀ call ∈ (doneBy (p.processBatch lredis elems ⟨cache, []⟩)).calls,
      p.Reported lredis cache lelems call

/-- After an element whose UVE may not be read, only UVEs that are gone follow, unless an
exception has ended the batch before. -/
def DeniedLast (lredis : Redis) (elems : List Notif) (cache : UveCache) : Prop :=
  ∀ lelems, elems.filterM p.passes = some lelems → ∀ pre elem post,
    lelems = pre ++ elem :: post → elem.typ.isSome = true →
    p.NoneRaises lredis cache (pre ++ [elem]) →
    p.permittedAt lredis cache pre elem = some false → ∀ elem' ∈ post, elem'.typ = none

-- ---------------------------------------------------------------------------
-- A batch
-- ---------------------------------------------------------------------------

theorem forall_mem_callback {P : StreamCall J → Prop} {s : Stream J} {key : String}
    {typ : Option String} {value : Option J} (hold : ∀ call ∈ s.calls, P call)
    (hnew : P ⟨key, typ, value⟩) : ∀ call ∈ (callback s key typ value).calls, P call := by
  intro call hcall
  rcases List.mem_append.mp hcall with hmem | hmem
  · exact hold call hmem
  · rw [List.mem_singleton.mp hmem]
    exact hnew

theorem processElem_gone {elem : Notif} (hnone : elem.typ = none) (pperes : List Answer)
    (acc : Stream J × Nat) :
    p.processElem pperes acc elem = .ok (callback acc.1 elem.key none none, acc.2 + 1) := by
  rw [processElem, hnone]

/-- UVEs that are gone are reported without reading the answers. -/
theorem foldlM_gone (pperes : List Answer) (post : List Notif) (hgone : ∀ elem ∈ post, elem.typ = none)
    (acc : Stream J × Nat) :
    ∃ s idx, post.foldlM (p.processElem pperes) acc = .ok (s, idx) ∧
      ∀ call ∈ s.calls, call ∈ acc.1.calls ∨ call.typ = none := by
  induction post generalizing acc with
  | nil => exact ⟨acc.1, acc.2, rfl, fun call hcall => Or.inl hcall⟩
  | cons elem post ih =>
    obtain ⟨s, idx, hfold, hcalls⟩ := ih
      (fun elem' helem' => hgone elem' (List.mem_cons_of_mem elem helem'))
      (callback acc.1 elem.key none none, acc.2 + 1)
    refine ⟨s, idx, ?_, fun call hcall => ?_⟩
    · rw [List.foldlM_cons, p.processElem_gone (hgone elem List.mem_cons_self)]
      exact hfold
    · rcases hcalls call hcall with hold | htyp
      · exact forall_mem_callback (P := fun call => call ∈ acc.1.calls ∨ call.typ = none)
          (fun _ => Or.inl) (Or.inr rfl) call hold
      · exact Or.inr htyp

section Batch

variable (hcontent : p._content = true) (lredis : Redis) (cache : UveCache) (lelems : List Notif)

theorem knownAfter_gone (pre : List Notif) {elem : Notif} (hnone : elem.typ = none) :
    p.knownAfter lredis cache (pre ++ [elem]) = p.knownAfter lredis cache pre := by
  rw [knownAfter, List.foldl_append, List.foldl_cons, List.foldl_nil, hnone]
  rfl

theorem NoneRaises.concat {pre : List Notif} (h : p.NoneRaises lredis cache pre) {elem : Notif}
    (helem : ¬ p.RaisesAt lredis cache pre elem) : p.NoneRaises lredis cache (pre ++ [elem]) := by
  intro pre' elem' hprefix
  rcases List.prefix_concat_iff.mp hprefix with heq | hprefix
  · obtain ⟨rfl, hlast⟩ := List.append_inj' heq rfl
    obtain rfl := List.singleton_inj.mp hlast
    exact helem
  · exact h pre' elem' hprefix

include hcontent

/-- What happens to a struct while the index is that of its element: its own answer is
read. -/
theorem processElem_aligned {pre post : List Notif} {elem : Notif}
    (hsplit : lelems = pre ++ elem :: post) {typ : String} (htyp : elem.typ = some typ)
    {s : Stream J} (hcache : s._uvecache = p.knownAfter lredis cache pre) :
    p.processElem (lelems.map (p.readElem lredis)) (s, pre.length) elem =
      match p.parseValue (lredis.hget (p.agPartValues elem.key) typ) with
      | none => .error s
      | some vdata =>
        match p.permittedAt lredis cache pre elem with
        | none => .error { s with _uvecache := p.knownAfter lredis cache (pre ++ [elem]) }
        | some false =>
          .ok ({ s with _uvecache := p.knownAfter lredis cache (pre ++ [elem]) }, pre.length)
        | some true =>
          .ok (callback { s with _uvecache := p.knownAfter lredis cache (pre ++ [elem]) }
            elem.key (some typ) vdata, pre.length + 1) := by
  have hread : (lelems.map (p.readElem lredis))[pre.length]? =
      some (.value (lredis.hget (p.agPartValues elem.key) typ)) := by
    rw [hsplit, List.map_append, List.getElem?_append_right (by simp)]
    simp [readElem, htyp]
  have hknown : p.knownAfter lredis cache (pre ++ [elem]) =
      s._uvecache.learn elem.key typ (lredis.hget (p.agPartValues elem.key) typ) := by
    rw [knownAfter, List.foldl_append, List.foldl_cons, List.foldl_nil, htyp, hcache]
    rfl
  rw [processElem, permittedAt, htyp, hknown]
  simp only [hcontent, if_true, processStruct, hread]

/-- As long as no element is denied the index is that of the element. -/
theorem foldlM_aligned (hlast : ∀ pre elem post, lelems = pre ++ elem :: post →
      elem.typ.isSome = true → p.NoneRaises lredis cache (pre ++ [elem]) →
      p.permittedAt lredis cache pre elem = some false → ∀ elem' ∈ post, elem'.typ = none)
    (post pre : List Notif) (hsplit : lelems = pre ++ post) (s : Stream J)
    (hcache : s._uvecache = p.knownAfter lredis cache pre) (hraised : p.NoneRaises lredis cache pre)
    (hcalls : ∀ call ∈ s.calls, p.Reported lredis cache lelems call) :
    ∀ call ∈ (doneBy ((post.foldlM (p.processElem (lelems.map (p.readElem lredis)))
      (s, pre.length)).map Prod.fst)).calls, p.Reported lredis cache lelems call := by
  induction post generalizing pre s with
  | nil => exact hcalls
  | cons elem post ih =>
    have hnext : lelems = (pre ++ [elem]) ++ post := by
      rw [hsplit, List.append_assoc]
      rfl
    have hlength : pre.length + 1 = (pre ++ [elem]).length := by simp
    rw [List.foldlM_cons]
    match htyp : elem.typ with
    | none =>
      -- the UVE is gone: it is forgotten, and the index goes on
      rw [p.processElem_gone htyp, hlength]
      refine ih (pre ++ [elem]) hnext _ ?_ (hraised.concat p lredis cache ?_)
        (forall_mem_callback hcalls nofun)
      · rw [p.knownAfter_gone lredis cache pre htyp]
        exact hcache
      · rintro ⟨typ, hsome, -⟩
        rw [htyp] at hsome
        cases hsome
    | some typ =>
      rw [p.processElem_aligned hcontent lredis cache lelems hsplit htyp hcache]
      -- a type has changed: it is read, and the permission is asked for
      have hraisedNext : ∀ vdata b,
          p.parseValue (lredis.hget (p.agPartValues elem.key) typ) = some vdata →
          p.permittedAt lredis cache pre elem = some b →
          p.NoneRaises lredis cache (pre ++ [elem]) := by
        intro vdata b hparse hpermitted
        refine hraised.concat p lredis cache ?_
        rintro ⟨typ', htyp', hnone | hnone⟩
        · obtain rfl := Option.some.inj (htyp.symm.trans htyp')
          rw [hparse] at hnone
          cases hnone
        · rw [hpermitted] at hnone
          cases hnone
      match hparse : p.parseValue (lredis.hget (p.agPartValues elem.key) typ),
          hpermitted : p.permittedAt lredis cache pre elem with
      | none, _ => exact hcalls
      | some vdata, none => exact hcalls
      | some vdata, some false =>
        -- A denied element: the index is not used any more.
        obtain ⟨s', idx, hfold, hnew⟩ := p.foldlM_gone (lelems.map (p.readElem lredis)) post
          (hlast pre elem post hsplit (by rw [htyp]; rfl)
            (hraisedNext vdata false hparse hpermitted) hpermitted)
          ({ s with _uvecache := p.knownAfter lredis cache (pre ++ [elem]) }, pre.length)
        intro call hcall
        have hdone : call ∈ s'.calls := by
          simp only [bind, Except.bind, hfold] at hcall
          exact hcall
        rcases hnew call hdone with hold | hnone
        · exact hcalls call hold
        · intro typ' htyp'
          rw [hnone] at htyp'
          cases htyp'
      | some vdata, some true =>
        rw [hlength]
        refine ih (pre ++ [elem]) hnext _ rfl (hraisedNext vdata true hparse hpermitted)
          (forall_mem_callback hcalls ?_)
        -- an element that is permitted is reported with the value read for it
        intro typ' htyp'
        obtain rfl := Option.some.inj htyp'
        have helem : (⟨elem.key, some typ⟩ : Notif) = elem := by
          rw [← htyp]
        refine ⟨pre, post, ?_, hparse, ?_⟩
        · rw [helem]
          exact hsplit
        · rw [helem]
          exact hpermitted

end Batch

-- ---------------------------------------------------------------------------
-- The start
-- ---------------------------------------------------------------------------

/-- A struct that is reported at the start is one that was read, of a UVE that may be
read. -/
def SyncReported (redish : Redis) (call : StreamCall J) : Prop :=
  ∃ typ vjson, call.typ = some typ ∧
    (typ, vjson) ∈ redish.hgetall (p.agPartValues call.key) ∧
    p.lib.loads vjson = some call.value ∧
    is_uve_read_permitted p.lib p._token
      (.ofList (redish.hgetall (p.agPartValues call.key))) = some true

def SyncPermitted (keys : List String) (redish : Redis) (cache : UveCache) : Prop :=
  ∀ call ∈ (doneBy (p.syncpart keys redish ⟨cache, []⟩)).calls, p.SyncReported redish call

/-- A loop whose steps keep a property of the calls, also those that fail. -/
theorem foldlM_calls {β : Type} {f : Stream J → β → Except (Stream J) (Stream J)}
    {P : StreamCall J → Prop} {l : List β}
    (hstep : ∀ b ∈ l, ∀ s, (∀ call ∈ s.calls, P call) → ∀ call ∈ (doneBy (f s b)).calls, P call)
    (s : Stream J) (hs : ∀ call ∈ s.calls, P call) :
    ∀ call ∈ (doneBy (l.foldlM f s)).calls, P call := by
  induction l generalizing s with
  | nil => exact hs
  | cons b l ih =>
    have hb := hstep b List.mem_cons_self s hs
    rw [List.foldlM_cons]
    cases hf : f s b with
    | error s' =>
      rw [hf] at hb
      exact hb
    | ok s' =>
      rw [hf] at hb
      exact ih (fun b' hb' => hstep b' (List.mem_cons_of_mem b hb')) s' hb

theorem syncStruct_calls (redish : Redis) (key : String)
    (hpermitted : is_uve_read_permitted p.lib p._token
      (.ofList (redish.hgetall (p.agPartValues key))) = some true)
    {e : String × String} (he : e ∈ redish.hgetall (p.agPartValues key)) (s : Stream J)
    (hs : ∀ call ∈ s.calls, p.SyncReported redish call) :
    ∀ call ∈ (doneBy (p.syncStruct key s e)).calls, p.SyncReported redish call := by
  unfold syncStruct
  split
  · split
    · exact hs
    · rename_i value hloads
      intro call hcall
      rcases List.mem_append.mp hcall with hold | hnew
      · exact hs call hold
      · rw [List.mem_singleton.mp hnew]
        exact ⟨e.1, e.2, rfl, he, hloads, hpermitted⟩
  · exact hs

theorem syncpart_permitted (hcontent : p._content = true) (keys : List String) (redish : Redis)
    (cache : UveCache) : p.SyncPermitted keys redish cache := by
  unfold SyncPermitted syncpart
  split
  · exact fun call hcall => absurd hcall List.not_mem_nil
  · refine foldlM_calls (fun e he s hs => ?_) _ fun call hcall => absurd hcall List.not_mem_nil
    obtain ⟨key, -, rfl⟩ := List.mem_map.mp he
    unfold syncUve
    rw [if_pos hcontent]
    split
    · exact hs
    · exact hs
    · rename_i hpermitted
      exact foldlM_calls (fun e he s hs => p.syncStruct_calls redish key hpermitted he s hs) s hs

/-- Nothing is reported of a UVE that may not be read, and every value is that of its
key and type, when no denied element of the batch comes before another one that is
read, up to the first exception. -/
theorem stream_permitted (hcontent : p._content = true) (lredis : Redis) (elems : List Notif)
    (cache : UveCache) (hdenied : p.DeniedLast lredis elems cache) :
    (∀ keys, p.SyncPermitted keys lredis cache) ∧ p.BatchPermitted lredis elems cache := by
  refine ⟨fun keys => p.syncpart_permitted hcontent keys lredis cache, fun lelems hlelems => ?_⟩
  unfold processBatch
  rw [hlelems]
  have hnone : p.NoneRaises lredis cache [] := fun pre elem hprefix =>
    absurd (List.prefix_nil.mp hprefix) (by simp)
  exact p.foldlM_aligned hcontent lredis cache lelems (hdenied lelems hlelems) lelems [] rfl
    ⟨cache, []⟩ rfl hnone fun call hcall => absurd hcall List.not_mem_nil

end UveStreamPart

/-- The text of a `ContrailConfig` whose owner may read. -/
def sampleConfig : String :=
  "\x7b\"elements\": \x7b\"perms2\": \"\x7b'owner': 't1', 'owner_access': 7, 'global_access': 0, 'share': []\x7d\"\x7d\x7d"

def sampleLibraries : Libraries Nat where
  loads text := if text = "1" then some (some 1) else if text = "2" then some (some 2) else none
  emptyDict := 0
  perms2 text := if text = sampleConfig then some ⟨"t1", 7, 0, []⟩ else none
  shareinfo_from_perms2_tenant _ := none

/-- A user of the project t1, who may not read everything. -/
def samplePart : UveStreamPart Nat :=
  ⟨0, "alarm-gen", true, [], [], [], some ⟨false, some ⟨some (some ⟨"t1", "p1", "d1"⟩)⟩⟩,
    sampleLibraries⟩

/-- UVE b:y belongs to t1; a:x does not. -/
def sampleCache : UveCache := .ofList [("b:y", .ofList [("ContrailConfig", sampleConfig)])]

def sampleValues : Redis :=
  (Redis.empty.hset (samplePart.agPartValues "a:x") "S" "1").hset (samplePart.agPartValues "b:y") "S" "2"

theorem stream_permitted_sample :
    samplePart.BatchPermitted sampleValues [⟨"b:y", some "S"⟩, ⟨"a:x", some "S"⟩] sampleCache := by
  refine (samplePart.stream_permitted rfl sampleValues _ sampleCache ?_).2
  intro lelems hlelems pre elem post hsplit htyp _ hnot
  obtain rfl : [⟨"b:y", some "S"⟩, ⟨"a:x", some "S"⟩] = lelems := Option.some.inj hlelems
  cases pre with
  | nil =>
    obtain ⟨rfl, -⟩ := List.cons.inj hsplit
    exact absurd (hnot.symm.trans (show _ = some true from rfl)) (by decide)
  | cons e pre =>
    obtain ⟨-, hrest⟩ := List.cons.inj hsplit
    cases pre with
    | nil =>
      obtain ⟨-, rfl⟩ := List.cons.inj hrest
      exact fun elem' helem' => absurd helem' List.not_mem_nil
    | cons e' pre =>
      obtain ⟨-, hnil⟩ := List.cons.inj hrest
      exact absurd hnil (by simp)

/-- The value of the denied UVE is reported under the key of the next one. -/
theorem denied_value_reported : ¬ ∀ (p : UveStreamPart Nat), p._content = true →
    ∀ lredis elems cache, p.BatchPermitted lredis elems cache := by
  intro hclaim
  have hcalls : (doneBy (samplePart.processBatch sampleValues
      [⟨"a:x", some "S"⟩, ⟨"b:y", some "S"⟩] ⟨sampleCache, []⟩)).calls =
      [⟨"b:y", some "S", some 1⟩] := rfl
  obtain ⟨pre, post, -, hvalue, -⟩ := hclaim samplePart rfl sampleValues
    [⟨"a:x", some "S"⟩, ⟨"b:y", some "S"⟩] sampleCache _ rfl ⟨"b:y", some "S", some 1⟩
    (by rw [hcalls]; exact List.mem_singleton_self _) "S" rfl
  exact absurd hvalue (by decide)

end TfAnalytics.OpServer
