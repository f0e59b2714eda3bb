import TfAnalytics.Lib.Transition
import Mathlib.Data.List.Nodup

/-!
# Analytics API — tokens in requests to the configuration API

`vnc_cfg_api_client.py`: to check whether a user may see an object,
`get_obj_perms_by_name` looks up the object's id and reads the object with the
user's token. The token goes into `_headers` of the one API client that all
greenlets share; it is put there before the read and deleted after it.

A greenlet runs until the client sends a request, and each request goes out
with the headers as they are then. The log of a run lists, newest first, what
was sent and when the header was set and deleted.

* `clientInv_step`: what the headers hold follows from the log;
* `own_token_iff`: exactly which orders of events leave every request with the
  right token.
-/

namespace TfAnalytics.OpServer

open TfAnalytics.Lib

-- ---------------------------------------------------------------------------
-- The calls
-- ---------------------------------------------------------------------------

/-- The permission checks the API server makes. -/
inductive Call where
  | get_obj_perms_by_name (name cfg_type : String)
  | get_resource_list (obj_type : String)

structure Check where
  call : Call
  token : String

def config_obj_to_fq_name_prefix_map : List (String × String) :=
  [("analytics_node", "default-global-system-config"),
    ("bgp_router", "default-domain:default-project:ip-fabric:__default__"),
    ("config_node", "default-global-system-config"),
    ("database_node", "default-global-system-config"),
    ("physical_router", "default-global-system-config"),
    ("virtual_machine", "null"),
    ("virtual_router", "default-global-system-config")]

/-- `name.split(":")`. -/
def splitFqName (name : String) : List String := (name.toList.splitOn ':').map String.ofList

/-- The uuid, when the name is one, or else the `fq_name` to look up. -/
def resolve (name cfg_type : String) : String ⊕ List String :=
  match config_obj_to_fq_name_prefix_map.lookup cfg_type with
  | some pfx =>
    let fq_name := splitFqName pfx
    if fq_name.head? = some "null" then .inl name else .inr (fq_name ++ [name])
  | none => .inr (splitFqName name)

/-- The calls that are given the token as an argument. -/
inductive TokenCall where
  | resource_list (obj_type : String)
  | obj_perms
  deriving DecidableEq

/-- The requests of the client. Look-ups and reads go by the headers. -/
inductive ApiRequest where
  | fq_name_to_id (cfg_type : String) (fq_name : List String)
  | read (obj_get_method uuid : String)
  | withToken (r : TokenCall)
  deriving DecidableEq

inductive Event where
  | set (i : Nat)
  | del (i : Nat)
  | request (i : Nat) (r : ApiRequest) (token : Option String)
  deriving DecidableEq

/-- What a check returns: permissions, or the resources of a type. When
`obj_perms` raises, so does the handler, which logs a name not yet assigned. -/
inductive Reply where
  | perms (rv_obj_perms : Option String)
  | resources (res_list : List (String × List (List String)))
  | raised

/-- Where a check is: inside which call of the client. -/
inductive Pc where
  | ready
  | lookup (cfg_type : String) (fq_name : List String)
  | reading (obj_get_method uuid : String)
  | asking (r : TokenCall)
  | done (reply : Reply)

structure ClientState where
  /-- `_headers['X-USER-TOKEN']`. -/
  headers : Option String
  pcs : List Pc
  log : List Event

/-- How a call of the client ends. -/
inductive Answer where
  | uuid (uuid : String)
  | object
  | cloud_admin (result : Bool)
  | resources (res_list : List (String × List (List String)))
  | exception

/-- A check starts and runs to its first request; it sends another request
within the same call; or the call ends and the check runs on. -/
inductive ClientAction where
  | start (i : Nat)
  | again (i : Nat)
  | answer (i : Nat) (a : Answer)

-- ---------------------------------------------------------------------------
-- Runs
-- ---------------------------------------------------------------------------

/-- Check `i` goes to `pc` and sends a request. -/
def ClientState.send (s : ClientState) (i : Nat) (pc : Pc) (r : ApiRequest)
    (token : Option String) : ClientState :=
  { s with pcs := s.pcs.set i pc, log := .request i r token :: s.log }

/-- Set the header and send the read. -/
def ClientState.beginRead (s : ClientState) (i : Nat) (token cfg_type uuid : String) :
    ClientState :=
  let obj_get_method := cfg_type ++ "_read"
  { headers := some token
    pcs := s.pcs.set i (.reading obj_get_method uuid)
    log := .request i (.read obj_get_method uuid) (some token) :: .set i :: s.log }

/-- The end of the read, `finally` included. -/
def ClientState.endRead (s : ClientState) (i : Nat) (rv_obj_perms : Option String) : ClientState :=
  { headers := none
    pcs := s.pcs.set i (.done (.perms rv_obj_perms))
    log := .del i :: s.log }

def ClientState.finish (s : ClientState) (i : Nat) (reply : Reply) : ClientState :=
  { s with pcs := s.pcs.set i (.done reply) }

def startCheck (check : Check) (s : ClientState) (i : Nat) : ClientState :=
  match check.call with
  | .get_resource_list obj_type =>
    s.send i (.asking (.resource_list obj_type)) (.withToken (.resource_list obj_type))
      (some check.token)
  | .get_obj_perms_by_name name cfg_type =>
    if cfg_type = "null" then
      s.send i (.asking .obj_perms) (.withToken .obj_perms) (some check.token)
    else
      match resolve name cfg_type with
      | .inl uuid => s.beginRead i check.token cfg_type uuid
      | .inr fq_name =>
        s.send i (.lookup cfg_type fq_name) (.fq_name_to_id cfg_type fq_name) s.headers

def clientStep (checks : List Check) (s : ClientState) : ClientAction → Option ClientState
  | .start i =>
    match checks[i]?, s.pcs[i]? with
    | some check, some .ready => some (startCheck check s i)
    | _, _ => none
  | .again i =>
    match checks[i]?, s.pcs[i]? with
    | some _, some (.lookup cfg_type fq_name) =>
      some (s.send i (.lookup cfg_type fq_name) (.fq_name_to_id cfg_type fq_name) s.headers)
    | some _, some (.reading obj_get_method uuid) =>
      some (s.send i (.reading obj_get_method uuid) (.read obj_get_method uuid) s.headers)
    | some check, some (.asking r) => some (s.send i (.asking r) (.withToken r) (some check.token))
    | _, _ => none
  | .answer i a =>
    match checks[i]?, s.pcs[i]?, a with
    | some check, some (.lookup cfg_type _), .uuid uuid =>
      some (s.beginRead i check.token cfg_type uuid)
    | some _, some (.lookup _ _), .exception => some (s.finish i (.perms none))
    | some _, some (.reading _ _), .object => some (s.endRead i (some "R"))
    | some _, some (.reading _ _), .exception => some (s.endRead i none)
    | some _, some (.asking .obj_perms), .cloud_admin result =>
      some (s.finish i (.perms (if result then some "RWX" else none)))
    | some _, some (.asking .obj_perms), .exception => some (s.finish i .raised)
    | some _, some (.asking (.resource_list _)), .resources res_list =>
      some (s.finish i (.resources res_list))
    | some _, some (.asking (.resource_list _)), .exception => some (s.finish i (.resources []))
    | _, _, _ => none

/-- Any number of checks, each in a greenlet of its own. -/
def client (checks : List Check) : System ClientState ClientAction where
  init := { headers := none, pcs := checks.map fun _ => .ready, log := [] }
  step := clientStep checks

-- ---------------------------------------------------------------------------
-- The headers and the log
-- ---------------------------------------------------------------------------

/-- The check whose token the headers hold. -/
def lastSet : List Event → Option Nat
  | [] => none
  | .set i :: _ => some i
  | .del _ :: _ => none
  | .request _ _ _ :: log => lastSet log

def tokenOf (checks : List Check) (i : Nat) : Option String := checks[i]?.map Check.token

/-- A request carries what it should: a look-up no token, any other the token of
its check. -/
def Event.OwnToken (checks : List Check) : Event → Prop
  | .request _ (.fq_name_to_id _ _) token => token = none
  | .request i _ token => token = tokenOf checks i
  | _ => True

/-- The order of events is such that nobody gets in between: when a look-up goes
out, the last to touch the header has deleted it; when a read goes out, the
last to touch the header is the same check, which has set it. -/
def Undisturbed : List Event → Prop
  | [] => True
  | .request _ (.fq_name_to_id _ _) _ :: log => lastSet log = none ∧ Undisturbed log
  | .request i (.read _ _) _ :: log => lastSet log = some i ∧ Undisturbed log
  | _ :: log => Undisturbed log

def Undisturbed.decide : (log : List Event) → Decidable (Undisturbed log)
  | [] => .isTrue trivial
  | .set _ :: log => Undisturbed.decide log
  | .del _ :: log => Undisturbed.decide log
  | .request _ (.fq_name_to_id _ _) _ :: log => @instDecidableAnd _ _ _ (Undisturbed.decide log)
  | .request _ (.read _ _) _ :: log => @instDecidableAnd _ _ _ (Undisturbed.decide log)
  | .request _ (.withToken _) _ :: log => Undisturbed.decide log

instance : DecidablePred Undisturbed := Undisturbed.decide

/-- The token a request goes out with, given what happened before. -/
def sentWith (checks : List Check) (log : List Event) (i : Nat) : ApiRequest → Option String
  | .fq_name_to_id _ _ => (lastSet log).bind (tokenOf checks)
  | .read _ _ => (lastSet log).bind (tokenOf checks)
  | .withToken _ => tokenOf checks i

/-- A log as the client writes it. -/
def Faithful (checks : List Check) : List Event → Prop
  | [] => True
  | .set i :: log => i < checks.length ∧ Faithful checks log
  | .del _ :: log => Faithful checks log
  | .request i r token :: log =>
    i < checks.length ∧ token = sentWith checks log i r ∧ Faithful checks log

theorem Faithful.lastSet_lt {checks : List Check} {log : List Event} (h : Faithful checks log)
    {i : Nat} (hi : lastSet log = some i) : i < checks.length := by
  induction log with
  | nil => cases hi
  | cons e log ih =>
    cases e with
    | set j =>
      obtain rfl := Option.some.inj hi
      exact h.1
    | del j => cases hi
    | request j r token => exact ih h.2.2 hi

/-- The invariant of every run. -/
structure ClientInv (checks : List Check) (s : ClientState) : Prop where
  headers : s.headers = (lastSet s.log).bind (tokenOf checks)
  log : Faithful checks s.log

theorem tokenOf_eq {checks : List Check} {i : Nat} {check : Check} (h : checks[i]? = some check) :
    i < checks.length ∧ tokenOf checks i = some check.token := by
  refine ⟨(List.getElem?_eq_some_iff.mp h).1, ?_⟩
  unfold tokenOf
  rw [h]
  rfl

section

variable {checks : List Check} {s : ClientState}

theorem ClientInv.send (h : ClientInv checks s) {i : Nat} (hi : i < checks.length) (pc : Pc)
    {r : ApiRequest} {token : Option String} (htoken : token = sentWith checks s.log i r) :
    ClientInv checks (s.send i pc r token) :=
  ⟨h.headers, hi, htoken, h.log⟩

theorem ClientInv.beginRead (h : ClientInv checks s) {i : Nat} {check : Check}
    (hi : checks[i]? = some check) (cfg_type uuid : String) :
    ClientInv checks (s.beginRead i check.token cfg_type uuid) := by
  obtain ⟨hlt, htoken⟩ := tokenOf_eq hi
  exact ⟨htoken.symm, hlt, htoken.symm, hlt, h.log⟩

theorem ClientInv.endRead (h : ClientInv checks s) (i : Nat) (rv_obj_perms : Option String) :
    ClientInv checks (s.endRead i rv_obj_perms) :=
  ⟨rfl, h.log⟩

theorem ClientInv.finish (h : ClientInv checks s) (i : Nat) (reply : Reply) :
    ClientInv checks (s.finish i reply) :=
  ⟨h.headers, h.log⟩

theorem ClientInv.start (h : ClientInv checks s) {i : Nat} {check : Check}
    (hi : checks[i]? = some check) : ClientInv checks (startCheck check s i) := by
  obtain ⟨hlt, htoken⟩ := tokenOf_eq hi
  unfold startCheck
  split
  · exact h.send hlt _ htoken.symm
  · split
    · exact h.send hlt _ htoken.symm
    · split
      · exact h.beginRead hi _ _
      · exact h.send hlt _ h.headers

/-- Every step keeps the invariant. -/
theorem clientInv_step {s' : ClientState} {a : ClientAction} (h : ClientInv checks s)
    (hstep : clientStep checks s a = some s') : ClientInv checks s' := by
  cases a with
  | start i =>
    simp only [clientStep] at hstep
    split at hstep
    · rename_i hi hpc
      obtain rfl := Option.some.inj hstep
      exact h.start hi
    · cases hstep
  | again i =>
    simp only [clientStep] at hstep
    split at hstep
    · rename_i hi hpc
      obtain rfl := Option.some.inj hstep
      exact h.send (tokenOf_eq hi).1 _ h.headers
    · rename_i hi hpc
      obtain rfl := Option.some.inj hstep
      exact h.send (tokenOf_eq hi).1 _ h.headers
    · rename_i check r hi hpc
      obtain rfl := Option.some.inj hstep
      obtain ⟨hlt, htoken⟩ := tokenOf_eq hi
      exact h.send hlt _ htoken.symm
    · cases hstep
  | answer i a =>
    simp only [clientStep] at hstep
    split at hstep
    · rename_i hi hpc
      obtain rfl := Option.some.inj hstep
      exact h.beginRead hi _ _
    · obtain rfl := Option.some.inj hstep
      exact h.finish _ _
    · obtain rfl := Option.some.inj hstep
      exact h.endRead _ _
    · obtain rfl := Option.some.inj hstep
      exact h.endRead _ _
    · obtain rfl := Option.some.inj hstep
      exact h.finish _ _
    · obtain rfl := Option.some.inj hstep
      exact h.finish _ _
    · obtain rfl := Option.some.inj hstep
      exact h.finish _ _
    · obtain rfl := Option.some.inj hstep
      exact h.finish _ _
    · cases hstep

theorem clientInv_init (checks : List Check) : ClientInv checks (client checks).init :=
  ⟨rfl, trivial⟩

theorem client_invariant (h : (client checks).Reachable s) : ClientInv checks s :=
  h.invariant (clientInv_init checks) fun _ _ _ hinv hstep => clientInv_step hinv hstep

/-- Which check's token the headers hold, when no two have the same. -/
theorem bind_tokenOf_eq_iff (hdiff : (checks.map Check.token).Nodup) {o : Option Nat} {i : Nat}
    (hi : i < checks.length) : o.bind (tokenOf checks) = tokenOf checks i ↔ o = some i := by
  have htoken : ∀ j, tokenOf checks j = (checks.map Check.token)[j]? :=
    fun j => List.getElem?_map.symm
  have hlen : i < (checks.map Check.token).length := by rwa [List.length_map]
  constructor
  · intro heq
    cases o with
    | none =>
      rw [htoken, List.getElem?_eq_getElem hlen] at heq
      cases heq
    | some j =>
      rw [Option.bind_some, htoken, htoken] at heq
      rw [(List.getElem?_inj hlen hdiff).mp heq.symm]
  · rintro rfl
    rfl

theorem bind_tokenOf_eq_none_iff {o : Option Nat} (ho : ∀ j, o = some j → j < checks.length) :
    o.bind (tokenOf checks) = none ↔ o = none := by
  cases o with
  | none => simp
  | some j =>
    have hj := ho j rfl
    unfold tokenOf
    simp [List.getElem?_eq_getElem hj]

/-- Requests with the wrong token, from the order of events. -/
theorem ownToken_iff_undisturbed (hdiff : (checks.map Check.token).Nodup) {log : List Event}
    (h : Faithful checks log) : (∀ e ∈ log, e.OwnToken checks) ↔ Undisturbed log := by
  induction log with
  | nil => simp [Undisturbed]
  | cons e log ih =>
    rw [List.forall_mem_cons]
    cases e with
    | set i => exact (and_iff_right trivial).trans (ih h.2)
    | del i => exact (and_iff_right trivial).trans (ih h)
    | request i r token =>
      obtain ⟨hlt, rfl, h⟩ := h
      have hvalid : ∀ j, lastSet log = some j → j < checks.length := fun j => h.lastSet_lt
      cases r with
      | fq_name_to_id cfg_type fq_name => exact and_congr (bind_tokenOf_eq_none_iff hvalid) (ih h)
      | read obj_get_method uuid => exact and_congr (bind_tokenOf_eq_iff hdiff hlt) (ih h)
      | withToken r => exact (and_iff_right rfl).trans (ih h)

/-- For any number of checks of different users and in every run: all requests
so far have carried the right token if and only if the order of the events was
such that nobody got in between. -/
theorem own_token_iff (hdiff : (checks.map Check.token).Nodup)
    (h : (client checks).Reachable s) :
    (∀ e ∈ s.log, e.OwnToken checks) ↔ Undisturbed s.log :=
  ownToken_iff_undisturbed hdiff (client_invariant h).log

end

/-- Two users, one with a network and one with a virtual machine. -/
def sampleChecks : List Check :=
  [{ call := .get_obj_perms_by_name "default:admin:vn1" "virtual_network", token := "alice" },
    { call := .get_obj_perms_by_name "vm1" "virtual_machine", token := "bob" }]

/-- One check after the other, with two requests for each call. -/
def oneByOne : List ClientAction :=
  [.start 0, .again 0, .answer 0 (.uuid "uuid1"), .again 0, .answer 0 .object, .start 1, .again 1,
    .answer 1 .exception]

theorem own_token_sample :
    ∃ s, (client sampleChecks).run oneByOne = some s ∧ s.log.length = 10 ∧
      ∀ e ∈ s.log, e.OwnToken sampleChecks := by
  have hrun : ((client sampleChecks).run oneByOne).map
      (fun s => (s.log.length, decide (Undisturbed s.log))) = some (10, true) := by decide
  obtain ⟨s, hs, hfields⟩ := Option.map_eq_some_iff.mp hrun
  obtain ⟨hlength, hundisturbed⟩ := Prod.mk.inj hfields
  have hiff := own_token_iff (show (sampleChecks.map Check.token).Nodup by decide)
    (System.reachable_of_run hs)
  exact ⟨s, hs, hlength, hiff.mpr (of_decide_eq_true hundisturbed)⟩

/-- The second request of the first check goes out with the token of the other. -/
theorem token_of_another :
    ¬ ∀ (checks : List Check) (s : ClientState), (checks.map Check.token).Nodup →
      (client checks).Reachable s → ∀ e ∈ s.log, e.OwnToken checks := by
  intro hclaim
  have hrun : ((client sampleChecks).run
      [.start 0, .answer 0 (.uuid "uuid1"), .start 1, .again 0]).map (fun s => s.log.head?) =
      some (some (.request 0 (.read "virtual_network_read" "uuid1") (some "bob"))) := by decide
  obtain ⟨s, hs, hhead⟩ := Option.map_eq_some_iff.mp hrun
  have hown : some "bob" = tokenOf sampleChecks 0 :=
    hclaim sampleChecks s (by decide) (System.reachable_of_run hs) _ (List.mem_of_head? hhead)
  exact absurd hown (by decide)

end TfAnalytics.OpServer
