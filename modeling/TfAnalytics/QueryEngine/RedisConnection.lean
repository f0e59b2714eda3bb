import Mathlib
import TfAnalytics.Lib.Transition

/-!
# Query engine — redis connections

`QEOpServerImpl` has `kConnections + 1` connections to every redis host. A
`RedisAsyncConnection` (redis_connection.cc) finds its callbacks by the hiredis
context it has, in a map that all connections share. The callbacks post handlers
to the io_service, which runs them one after the other in posting order; hiredis
events, expired timers and commands of pipelines come in between.

hiredis and boost::asio are the environment: a context connects or fails once, a
connected one replies to its commands in order and disconnects once, with a NULL
reply to each command left, and its address may be used again.

An assertion that fails ends the run with its `Fault`.

* `inv_step` — the invariant, for every event.
* `no_assertion_fails` — no assertion on a context fails, and commands go to
  connected contexts, in runs where no connection is lost while one of its
  ConnUpPrePostProcess or ConnUpPostProcess handlers is queued.
-/

namespace TfAnalytics.QueryEngine.RedisConnection

open TfAnalytics.Lib

-- ---------------------------------------------------------------------------
-- hiredis
-- ---------------------------------------------------------------------------

/-- Contexts are known by their address. -/
abbrev ContextPtr := Nat

/-- What is sent on a connection; `pipeline` is any command of a query. -/
inductive RedisCommand where
  | AUTH
  | PING
  | BRPOPLPUSH
  | pipeline
  deriving DecidableEq

inductive ReplyType where
  | STRING
  | ARRAY
  | INTEGER
  | NIL
  | STATUS
  | ERROR
  deriving DecidableEq

/-- `redisAsyncContext`: whether it is connected, which callbacks are set, and the
commands it has no reply to. -/
structure AsyncContext where
  connected : Bool
  onConnect : Bool
  onDisconnect : Bool
  pending : List RedisCommand
  deriving DecidableEq

namespace AsyncContext

/-- `redisAsyncConnect`. -/
def new : AsyncContext := ⟨false, false, false, []⟩

/-- `none` is REDIS_ERR: the callback is set already. -/
def redisAsyncSetConnectCallback (ac : AsyncContext) : Option AsyncContext :=
  if ac.onConnect then none else some { ac with onConnect := true }

def redisAsyncSetDisconnectCallback (ac : AsyncContext) : Option AsyncContext :=
  if ac.onDisconnect then none else some { ac with onDisconnect := true }

end AsyncContext

-- ---------------------------------------------------------------------------
-- Connections and their callbacks
-- ---------------------------------------------------------------------------

def kConnections : Nat := 4

/-- The connection `conns_[redis_host_idx][cnum]`. -/
structure Conn (hosts : Nat) where
  redis_host_idx : Fin hosts
  cnum : Fin (kConnections + 1)
  deriving DecidableEq

inductive RedisState where
  | INIT
  | PENDING
  | CONNECTED
  | DISCONNECTED
  deriving DecidableEq

/-- `reconnect_timer_` is the number of waits that were started on the timer and
are not over. -/
structure RedisAsyncConnection where
  context_ : Option ContextPtr
  state_ : RedisState
  reconnect_timer_ : Nat

inductive ClientAsyncCmdCb where
  | ConnectCallbackProcess
  | CallbackProcess
  deriving DecidableEq

/-- A callback is known by the connection it is bound to. -/
structure RAC_CbFns (hosts : Nat) where
  stat_cbfn_ : Option (Conn hosts)
  connect_cbfn_ : Option (Conn hosts)
  disconnect_cbfn_ : Option (Conn hosts)
  client_async_cmd_cbfn_ : Option (ClientAsyncCmdCb × Conn hosts)

/-- What is posted to the io_service. -/
inductive Handler (hosts : Nat) where
  | ConnUpPrePostProcess (conn : Conn hosts)
  | ConnUpPostProcess (conn : Conn hosts)
  | UpdateRedisConnectionStatus
  | RAC_Connect (conn : Conn hosts)
  deriving DecidableEq

/-- Where the process aborts. `context` is a command on a context that is NULL or
was freed, `QE_ASSERT` a reply of an unexpected type. -/
inductive Fault where
  | SetClientAsyncCmdCb
  | RAC_Connect
  | RAC_Reconnect
  | RAC_ConnectCallback
  | RAC_DisconnectCallback
  | RAC_AsyncCmdCallback
  | context
  | QE_ASSERT
  deriving DecidableEq

structure QEConf where
  redis_password_ : String
  redis_ssl_enable_ : Bool

/-- `constructing` are the connections the constructor has still to allocate. -/
structure QEState (hosts : Nat) where
  conns_ : Conn hosts → RedisAsyncConnection
  connState_ : Conn hosts → Bool
  rac_cb_fns_map_ : ContextPtr → Option (RAC_CbFns hosts)
  hiredis : ContextPtr → Option AsyncContext
  io_service : List (Handler hosts)
  constructing : List (Conn hosts)

namespace QEState

variable {hosts : Nat}

section Operations

variable (conf : QEConf) (s : QEState hosts)

def setConn (conn : Conn hosts) (rac : RedisAsyncConnection) : QEState hosts :=
  { s with conns_ := Function.update s.conns_ conn rac }

def setFns (c : ContextPtr) (fns : Option (RAC_CbFns hosts)) : QEState hosts :=
  { s with rac_cb_fns_map_ := Function.update s.rac_cb_fns_map_ c fns }

def setContext (c : ContextPtr) (ac : Option AsyncContext) : QEState hosts :=
  { s with hiredis := Function.update s.hiredis c ac }

def setConnState (conn : Conn hosts) (up : Bool) : QEState hosts :=
  { s with connState_ := Function.update s.connState_ conn up }

def post (handlers : List (Handler hosts)) : QEState hosts :=
  { s with io_service := s.io_service ++ handlers }

/-- `expires_from_now` and `async_wait` on the timer of the connection. -/
def waitReconnect (conn : Conn hosts) : QEState hosts :=
  s.setConn conn
    { s.conns_ conn with reconnect_timer_ := (s.conns_ conn).reconnect_timer_ + 1 }

/-- The entry of `context_` is erased and `context_` is set to NULL. -/
def dropContext (conn : Conn hosts) : QEState hosts :=
  match (s.conns_ conn).context_ with
  | none => s
  | some c => (s.setFns c none).setConn conn { s.conns_ conn with context_ := none }

/-- `context` is what `redisAsyncConnect` gives, `none` if it has an error, and
`secure` whether `redisSecureConnection` succeeds. A context with an error is left
behind and has no events. -/
def RAC_Connect (conn : Conn hosts) (context : Option ContextPtr) (secure : Bool) :
    Except Fault (QEState hosts × Bool) :=
  if (s.conns_ conn).context_.isSome then .error .RAC_Connect
  else
    match context with
    | none => .ok (s.waitReconnect conn, true)
    | some c =>
      if conf.redis_ssl_enable_ && !secure then .ok (s.waitReconnect conn, true)
      else
        match AsyncContext.new.redisAsyncSetConnectCallback with
        | none => .error .RAC_Connect
        | some ac =>
          if (s.rac_cb_fns_map_ c).isSome then .error .RAC_Connect
          else
            match ac.redisAsyncSetDisconnectCallback with
            | none => .error .RAC_Connect
            | some ac =>
              .ok ((((s.setContext c (some ac)).setFns c
                (some ⟨some conn, some conn, some conn, none⟩)).setConn conn
                { s.conns_ conn with context_ := some c, state_ := .PENDING }), true)

/-- The end of a wait; `canceled` is whether it ended with operation_canceled. -/
def RAC_Reconnect (conn : Conn hosts) (canceled : Bool) (context : Option ContextPtr)
    (secure : Bool) : Except Fault (QEState hosts) :=
  if canceled then .ok s
  else
    match s.RAC_Connect conf conn context secure with
    | .error fault => .error fault
    | .ok (s, ret) => if ret then .ok s else .error .RAC_Reconnect

def ConnUp (conn : Conn hosts) : QEState hosts := s.post [.ConnUpPrePostProcess conn]

def ConnDown (conn : Conn hosts) : QEState hosts :=
  (s.setConnState conn false).post [.UpdateRedisConnectionStatus, .RAC_Connect conn]

def RAC_ConnectCallbackProcess (conn : Conn hosts) (status : Bool) : QEState hosts :=
  if status then (s.setConn conn { s.conns_ conn with state_ := .CONNECTED }).ConnUp conn
  else (s.dropContext conn).waitReconnect conn

def RAC_ConnectCallback (c : ContextPtr) (status : Bool) : Except Fault (QEState hosts) :=
  match s.rac_cb_fns_map_ c with
  | none => .error .RAC_ConnectCallback
  | some fns =>
    match fns.connect_cbfn_ with
    | none => .error .RAC_ConnectCallback
    | some conn =>
      .ok ((s.setFns c (some { fns with connect_cbfn_ := none })).RAC_ConnectCallbackProcess conn
        status)

def RAC_DisconnectCallbackProcess (conn : Conn hosts) : QEState hosts :=
  let s := s.dropContext conn
  (s.setConn conn { s.conns_ conn with state_ := .DISCONNECTED }).ConnDown conn

def RAC_DisconnectCallback (c : ContextPtr) : Except Fault (QEState hosts) :=
  match s.rac_cb_fns_map_ c with
  | none => .ok s
  | some fns =>
    match fns.disconnect_cbfn_ with
    | none => .error .RAC_DisconnectCallback
    | some conn =>
      .ok ((s.setFns c (some { fns with disconnect_cbfn_ := none })).RAC_DisconnectCallbackProcess
        conn)

def SetClientAsyncCmdCb (conn : Conn hosts) (cb_fn : ClientAsyncCmdCb × Conn hosts) :
    Except Fault (QEState hosts) :=
  match (s.conns_ conn).context_ with
  | none => .error .SetClientAsyncCmdCb
  | some c =>
    match s.rac_cb_fns_map_ c with
    | none => .error .SetClientAsyncCmdCb
    | some fns => .ok (s.setFns c (some { fns with client_async_cmd_cbfn_ := some cb_fn }))

/-- What it returns tells a pipeline whether the command was sent. -/
def RedisAsyncArgCmd (conn : Conn hosts) (cmd : RedisCommand) : Except Fault (QEState hosts) :=
  if (s.conns_ conn).state_ ≠ .CONNECTED then .ok s
  else
    match (s.conns_ conn).context_ with
    | none => .error .context
    | some c =>
      match s.hiredis c with
      | none => .error .context
      | some ac => .ok (s.setContext c (some { ac with pending := ac.pending ++ [cmd] }))

def ConnUpPrePostProcess (conn : Conn hosts) : Except Fault (QEState hosts) :=
  (s.SetClientAsyncCmdCb conn (.ConnectCallbackProcess, conn)).bind fun s =>
    s.RedisAsyncArgCmd conn (if conf.redis_password_ = "" then .PING else .AUTH)

def ConnUpPostProcess (conn : Conn hosts) : Except Fault (QEState hosts) :=
  (if s.connState_ conn = false then
    (s.SetClientAsyncCmdCb conn (.CallbackProcess, conn)).map fun s => s.setConnState conn true
  else .ok s).bind fun s =>
    if ∀ i, s.connState_ ⟨conn.redis_host_idx, i⟩ = true then
      s.RedisAsyncArgCmd ⟨conn.redis_host_idx, 0⟩ .BRPOPLPUSH
    else .ok s

/-- A query is read over a connection of its own; if it is accepted, its progress is
reported on the connection `conn + 1` of `LeastLoadedConnection`. -/
def StartPipeline (redis_host_idx : Fin hosts) (conn : Option (Fin kConnections)) :
    Except Fault (QEState hosts) :=
  match conn with
  | none => .ok s
  | some conn => s.RedisAsyncArgCmd ⟨redis_host_idx, conn.succ⟩ .pipeline

/-- A reply is its type, and `none` is NULL. -/
def ConnectCallbackProcess (conn : Conn hosts) (r : Option ReplyType) :
    Except Fault (QEState hosts) :=
  match r with
  | none => .ok s
  | some type =>
    if type ≠ .ERROR then .ok (s.post [.UpdateRedisConnectionStatus, .ConnUpPostProcess conn])
    else .error .QE_ASSERT

/-- Replies on the connections other than the first one go to their pipelines. -/
def CallbackProcess (conn : Conn hosts) (r : Option ReplyType)
    (pipeline : Option (Fin kConnections)) : Except Fault (QEState hosts) :=
  if conn.cnum = 0 then
    match r with
    | none => .ok s
    | some type =>
      if type ≠ .STRING then .error .QE_ASSERT
      else
        (s.StartPipeline conn.redis_host_idx pipeline).map fun s =>
          s.post [.ConnUpPostProcess conn]
  else .ok s

def RAC_AsyncCmdCallback (c : ContextPtr) (r : Option ReplyType)
    (pipeline : Option (Fin kConnections)) : Except Fault (QEState hosts) :=
  match s.rac_cb_fns_map_ c with
  | none => .ok s
  | some fns =>
    match fns.client_async_cmd_cbfn_ with
    | some (.ConnectCallbackProcess, conn) => s.ConnectCallbackProcess conn r
    | some (.CallbackProcess, conn) => s.CallbackProcess conn r pipeline
    | none => if fns.stat_cbfn_.isSome then .ok s else .error .RAC_AsyncCmdCallback

/-- `UpdateRedisConnectionStatus` only reports. -/
def runHandler (context : Option ContextPtr) (secure : Bool) :
    Handler hosts → Except Fault (QEState hosts)
  | .ConnUpPrePostProcess conn => s.ConnUpPrePostProcess conf conn
  | .ConnUpPostProcess conn => s.ConnUpPostProcess conn
  | .UpdateRedisConnectionStatus => .ok s
  | .RAC_Connect conn => (s.RAC_Connect conf conn context secure).map Prod.fst

end Operations

/-- The commands left on a context that is freed are replied to with NULL. -/
def nullReplies (c : ContextPtr) : List RedisCommand → QEState hosts → Except Fault (QEState hosts)
  | [], s => .ok s
  | _ :: pending, s => (s.RAC_AsyncCmdCallback c none none).bind (nullReplies c pending)

-- ---------------------------------------------------------------------------
-- Runs
-- ---------------------------------------------------------------------------

/-- What happens next. `context` and `secure` are used if RAC_Connect is called. -/
inductive Event (hosts : Nat) where
  /-- the constructor allocates the next connection -/
  | rac_alloc (context : Option ContextPtr) (secure : Bool)
  | connect (c : ContextPtr) (status : Bool)
  | reply (c : ContextPtr) (type : ReplyType) (pipeline : Option (Fin kConnections))
  | disconnect (c : ContextPtr)
  /-- a wait of the reconnect timer is over -/
  | timer (conn : Conn hosts) (canceled : Bool) (context : Option ContextPtr) (secure : Bool)
  /-- the io_service runs the next handler -/
  | handler (context : Option ContextPtr) (secure : Bool)
  /-- a pipeline sends a command -/
  | command (conn : Conn hosts)

/-- A new context does not have the address of one in use. -/
def fresh (s : QEState hosts) (context : Option ContextPtr) : Bool :=
  context.all fun c => (s.hiredis c).isNone

/-- The hiredis part of an event, then its callbacks. -/
def event (conf : QEConf) (s : QEState hosts) : Event hosts → Option (Except Fault (QEState hosts))
  | .rac_alloc context secure =>
    match s.constructing with
    | [] => none
    | conn :: rest =>
      if s.fresh context then
        some (({ s with constructing := rest }.RAC_Connect conf conn context secure).map Prod.fst)
      else none
  | .connect c status =>
    match s.hiredis c with
    | none => none
    | some ac =>
      if ac.connected || !ac.onConnect then none
      else
        let ac := if status then some { ac with connected := true } else none
        some ((s.setContext c ac).RAC_ConnectCallback c status)
  | .reply c type pipeline =>
    match s.hiredis c with
    | none => none
    | some ac =>
      if ac.connected then
        match ac.pending with
        | [] => none
        | _ :: pending =>
          some ((s.setContext c (some { ac with pending := pending })).RAC_AsyncCmdCallback c
            (some type) pipeline)
      else none
  | .disconnect c =>
    match s.hiredis c with
    | none => none
    | some ac =>
      if ac.connected && ac.onDisconnect then
        some ((nullReplies c ac.pending s).bind fun s =>
          (s.setContext c none).RAC_DisconnectCallback c)
      else none
  | .timer conn canceled context secure =>
    if 0 < (s.conns_ conn).reconnect_timer_ ∧ s.fresh context = true then
      some ((s.setConn conn { s.conns_ conn with
        reconnect_timer_ := (s.conns_ conn).reconnect_timer_ - 1 }).RAC_Reconnect conf conn canceled
          context secure)
    else none
  | .handler context secure =>
    match s.io_service with
    | [] => none
    | h :: rest =>
      if s.fresh context then
        some ({ s with io_service := rest }.runHandler conf context secure h)
      else none
  | .command conn => some (s.RedisAsyncArgCmd conn .pipeline)

/-- The io_service runs when the constructor is done. -/
def step (conf : QEConf) : Except Fault (QEState hosts) → Event hosts →
    Option (Except Fault (QEState hosts))
  | .error _, _ => none
  | .ok s, .rac_alloc context secure => s.event conf (.rac_alloc context secure)
  | .ok s, e => if s.constructing = [] then s.event conf e else none

/-- The connections in the order of the constructor's loops. -/
def allConns (hosts : Nat) : List (Conn hosts) :=
  (List.finRange hosts).flatMap fun redis_host_idx =>
    (List.finRange (kConnections + 1)).map fun cnum => ⟨redis_host_idx, cnum⟩

end QEState

open QEState

def qeSystem (hosts : Nat) (conf : QEConf) : System (Except Fault (QEState hosts)) (Event hosts) where
  init := .ok
    { conns_ := fun _ => ⟨none, .INIT, 0⟩
      connState_ := fun _ => false
      rac_cb_fns_map_ := fun _ => none
      hiredis := fun _ => none
      io_service := []
      constructing := allConns hosts }
  step := QEState.step conf

/-- A connection is not lost while a ConnUpPrePostProcess or ConnUpPostProcess
handler of it is queued. -/
def HandlersDone {hosts : Nat} : Except Fault (QEState hosts) → Event hosts → Prop
  | .ok s, .disconnect c => ∀ conn, (s.conns_ conn).context_ = some c →
      .ConnUpPrePostProcess conn ∉ s.io_service ∧ .ConnUpPostProcess conn ∉ s.io_service
  | _, _ => True

-- ---------------------------------------------------------------------------
-- The invariant
-- ---------------------------------------------------------------------------

variable {hosts : Nat}

/-- The context of a connection is in use, with callbacks bound to the connection. -/
structure Attached (s : QEState hosts) (conn : Conn hosts) (c : ContextPtr)
    (fns : RAC_CbFns hosts) (ac : AsyncContext) : Prop where
  fns_eq : s.rac_cb_fns_map_ c = some fns
  context_eq : s.hiredis c = some ac
  stat_cbfn : fns.stat_cbfn_ = some conn
  disconnect_cbfn : fns.disconnect_cbfn_ = some conn
  connect_cbfn : fns.connect_cbfn_ = if ac.connected then none else some conn
  client_cbfn : ∀ cb, fns.client_async_cmd_cbfn_ = some cb → cb.2 = conn
  state_eq : (s.conns_ conn).state_ = if ac.connected then .CONNECTED else .PENDING

/-- Contexts in use and connections belong together. -/
structure Linked (s : QEState hosts) : Prop where
  attached : ∀ conn c, (s.conns_ conn).context_ = some c → ∃ fns ac, Attached s conn c fns ac
  owned : ∀ c, (s.hiredis c).isSome = true → ∃ conn, (s.conns_ conn).context_ = some c
  mapped : ∀ c, (s.rac_cb_fns_map_ c).isSome = true → (s.hiredis c).isSome = true
  down : ∀ conn, (s.conns_ conn).context_ = none → (s.conns_ conn).state_ ≠ .CONNECTED

/-- The ways in which a connection has a context or is going to get one. -/
def attempts (s : QEState hosts) (conn : Conn hosts) : Nat :=
  s.constructing.count conn + (if (s.conns_ conn).context_.isSome then 1 else 0) +
    (s.conns_ conn).reconnect_timer_ + s.io_service.count (.RAC_Connect conn)

/-- The handlers of a connection that need its context. -/
def needs (conn : Conn hosts) (h : Handler hosts) : Prop :=
  h = .ConnUpPrePostProcess conn ∨ h = .ConnUpPostProcess conn

structure Inv (s : QEState hosts) : Prop extends Linked s where
  once : ∀ conn, attempts s conn ≤ 1
  queued : ∀ conn, ∀ h ∈ s.io_service, needs conn h → (s.conns_ conn).state_ = .CONNECTED

theorem Attached.frame {s s' : QEState hosts} {conn : Conn hosts} {c : ContextPtr}
    {fns : RAC_CbFns hosts} {ac : AsyncContext} (h : Attached s conn c fns ac)
    (hstate : (s'.conns_ conn).state_ = (s.conns_ conn).state_)
    (hmap : s'.rac_cb_fns_map_ c = s.rac_cb_fns_map_ c)
    (hhiredis : s'.hiredis c = s.hiredis c) : Attached s' conn c fns ac := by
  refine ⟨?_, ?_, h.stat_cbfn, h.disconnect_cbfn, h.connect_cbfn, h.client_cbfn, ?_⟩
  · rw [hmap, h.fns_eq]
  · rw [hhiredis, h.context_eq]
  · rw [hstate, h.state_eq]

namespace Linked

variable {s s' : QEState hosts} {conn conn' : Conn hosts} {c : ContextPtr}

theorem conn_unique (h : Linked s) (hc : (s.conns_ conn).context_ = some c)
    (hc' : (s.conns_ conn').context_ = some c) : conn = conn' := by
  obtain ⟨fns, ac, ha⟩ := h.attached conn c hc
  obtain ⟨fns', ac', ha'⟩ := h.attached conn' c hc'
  have hfns : fns = fns' := Option.some.inj (ha.fns_eq.symm.trans ha'.fns_eq)
  have hconn : some conn = some conn' := by
    rw [← ha.disconnect_cbfn, ← ha'.disconnect_cbfn, hfns]
  exact Option.some.inj hconn

theorem frame (h : Linked s)
    (hctx : ∀ conn, (s'.conns_ conn).context_ = (s.conns_ conn).context_)
    (hstate : ∀ conn, (s'.conns_ conn).state_ = (s.conns_ conn).state_)
    (hmap : s'.rac_cb_fns_map_ = s.rac_cb_fns_map_) (hhiredis : s'.hiredis = s.hiredis) :
    Linked s' := by
  refine ⟨?_, ?_, ?_, ?_⟩
  · intro conn c hc
    rw [hctx] at hc
    obtain ⟨fns, ac, ha⟩ := h.attached conn c hc
    exact ⟨fns, ac, ha.frame (hstate conn) (by rw [hmap]) (by rw [hhiredis])⟩
  · intro c hc
    rw [hhiredis] at hc
    obtain ⟨conn, hconn⟩ := h.owned c hc
    exact ⟨conn, by rw [hctx, hconn]⟩
  · rw [hmap, hhiredis]
    exact h.mapped
  · intro conn hnone
    rw [hctx] at hnone
    rw [hstate]
    exact h.down conn hnone

/-- Only the connection and its context change. -/
theorem of_attached (h : Linked s) {fns : RAC_CbFns hosts} {ac : AsyncContext}
    (hctx : (s'.conns_ conn).context_ = some c) (ha : Attached s' conn c fns ac)
    (hold : ∀ c', (s.conns_ conn).context_ = some c' → c' = c)
    (hother : ∀ conn', conn' ≠ conn → (s.conns_ conn').context_ ≠ some c)
    (hconns : ∀ conn', conn' ≠ conn → s'.conns_ conn' = s.conns_ conn')
    (hmap : ∀ c', c' ≠ c → s'.rac_cb_fns_map_ c' = s.rac_cb_fns_map_ c')
    (hhiredis : ∀ c', c' ≠ c → s'.hiredis c' = s.hiredis c') : Linked s' := by
  refine ⟨?_, ?_, ?_, ?_⟩
  · intro conn' c' hc'
    by_cases hconn : conn' = conn
    · subst hconn
      rw [hctx] at hc'
      exact ⟨fns, ac, Option.some.inj hc' ▸ ha⟩
    · rw [hconns conn' hconn] at hc'
      have hne : c' ≠ c := fun heq => hother conn' hconn (heq ▸ hc')
      obtain ⟨fns', ac', ha'⟩ := h.attached conn' c' hc'
      exact ⟨fns', ac', ha'.frame (by rw [hconns conn' hconn]) (hmap c' hne) (hhiredis c' hne)⟩
  · intro c' hc'
    by_cases hne : c' = c
    · exact ⟨conn, hne ▸ hctx⟩
    · rw [hhiredis c' hne] at hc'
      obtain ⟨conn', hconn'⟩ := h.owned c' hc'
      have hconn : conn' ≠ conn := fun heq => hne (hold c' (heq ▸ hconn'))
      exact ⟨conn', by rw [hconns conn' hconn, hconn']⟩
  · intro c' hc'
    by_cases hne : c' = c
    · rw [hne, ha.context_eq]
      rfl
    · rw [hmap c' hne] at hc'
      rw [hhiredis c' hne]
      exact h.mapped c' hc'
  · intro conn' hnone
    by_cases hconn : conn' = conn
    · rw [hconn, hctx] at hnone
      cases hnone
    · rw [hconns conn' hconn] at hnone ⊢
      exact h.down conn' hnone

/-- The connection loses its context. -/
theorem of_detached (h : Linked s) (hctx : (s.conns_ conn).context_ = some c)
    (hnone : (s'.conns_ conn).context_ = none) (hdown : (s'.conns_ conn).state_ ≠ .CONNECTED)
    (hconns : ∀ conn', conn' ≠ conn → s'.conns_ conn' = s.conns_ conn')
    (hmapc : s'.rac_cb_fns_map_ c = none)
    (hmap : ∀ c', c' ≠ c → s'.rac_cb_fns_map_ c' = s.rac_cb_fns_map_ c')
    (hhiredisc : s'.hiredis c = none)
    (hhiredis : ∀ c', c' ≠ c → s'.hiredis c' = s.hiredis c') : Linked s' := by
  refine ⟨?_, ?_, ?_, ?_⟩
  · intro conn' c' hc'
    have hconn : conn' ≠ conn := by
      intro heq
      rw [heq, hnone] at hc'
      cases hc'
    rw [hconns conn' hconn] at hc'
    have hne : c' ≠ c := fun heq => hconn (h.conn_unique (heq ▸ hc') hctx)
    obtain ⟨fns', ac', ha'⟩ := h.attached conn' c' hc'
    exact ⟨fns', ac', ha'.frame (by rw [hconns conn' hconn]) (hmap c' hne) (hhiredis c' hne)⟩
  · intro c' hc'
    have hne : c' ≠ c := by
      intro heq
      rw [heq, hhiredisc] at hc'
      cases hc'
    rw [hhiredis c' hne] at hc'
    obtain ⟨conn', hconn'⟩ := h.owned c' hc'
    have hconn : conn' ≠ conn := by
      intro heq
      rw [heq, hctx] at hconn'
      exact hne (Option.some.inj hconn').symm
    exact ⟨conn', by rw [hconns conn' hconn, hconn']⟩
  · intro c' hc'
    have hne : c' ≠ c := by
      intro heq
      rw [heq, hmapc] at hc'
      cases hc'
    rw [hmap c' hne] at hc'
    rw [hhiredis c' hne]
    exact h.mapped c' hc'
  · intro conn' hnone'
    by_cases hconn : conn' = conn
    · rw [hconn]
      exact hdown
    · rw [hconns conn' hconn] at hnone' ⊢
      exact h.down conn' hnone'

end Linked

-- ---------------------------------------------------------------------------
-- What each call does
-- ---------------------------------------------------------------------------

/-- The call returns with `Q`, or a reply of an unexpected type ends the run. -/
def Ends (Q : QEState hosts → Prop) : Except Fault (QEState hosts) → Prop
  | .ok s => Q s
  | .error fault => fault = .QE_ASSERT

theorem Ends.bind {Q R : QEState hosts → Prop} {r : Except Fault (QEState hosts)}
    {f : QEState hosts → Except Fault (QEState hosts)} (h : Ends Q r)
    (hf : ∀ s, Q s → Ends R (f s)) : Ends R (r.bind f) := by
  cases r with
  | ok s => exact hf s h
  | error fault => exact h

theorem Ends.imp {Q R : QEState hosts → Prop} {r : Except Fault (QEState hosts)} (h : Ends Q r)
    (hQR : ∀ s, Q s → R s) : Ends R r := by
  cases r with
  | ok s => exact hQR s h
  | error fault => exact h

theorem Ends.map {Q R : QEState hosts → Prop} {r : Except Fault (QEState hosts)}
    {f : QEState hosts → QEState hosts} (h : Ends Q r) (hf : ∀ s, Q s → R (f s)) :
    Ends R (r.map f) := by
  cases r with
  | ok s => exact hf s h
  | error fault => exact h

/-- The connections are as before, and nothing was posted. -/
structure Kept (s s' : QEState hosts) : Prop extends Inv s' where
  conns_eq : s'.conns_ = s.conns_
  io_service_eq : s'.io_service = s.io_service
  constructing_eq : s'.constructing = s.constructing

section Calls

variable {s : QEState hosts} {conn : Conn hosts} {c : ContextPtr}

theorem Inv.kept {s' : QEState hosts} (h : Inv s) (hlinked : Linked s')
    (hconns : s'.conns_ = s.conns_) (hio : s'.io_service = s.io_service)
    (hcon : s'.constructing = s.constructing) : Kept s s' := by
  refine ⟨⟨hlinked, ?_, ?_⟩, hconns, hio, hcon⟩
  · intro conn
    have hle := h.once conn
    unfold attempts at hle ⊢
    rw [hconns, hio, hcon]
    exact hle
  · rw [hconns, hio]
    exact h.queued

theorem Inv.exists_context (h : Inv s) (hup : (s.conns_ conn).state_ = .CONNECTED) :
    ∃ c fns ac, (s.conns_ conn).context_ = some c ∧ Attached s conn c fns ac := by
  cases hctx : (s.conns_ conn).context_ with
  | none => exact absurd hup (h.down conn hctx)
  | some c =>
    obtain ⟨fns, ac, ha⟩ := h.attached conn c hctx
    exact ⟨c, fns, ac, rfl, ha⟩

/-- The entry or the context of a connection changes, and it stays attached. -/
theorem Inv.kept_of_attached {s' : QEState hosts} (h : Inv s)
    (hctx : (s.conns_ conn).context_ = some c) {fns : RAC_CbFns hosts} {ac : AsyncContext}
    (ha : Attached s' conn c fns ac) (hconns : s'.conns_ = s.conns_)
    (hio : s'.io_service = s.io_service) (hcon : s'.constructing = s.constructing)
    (hmap : ∀ c', c' ≠ c → s'.rac_cb_fns_map_ c' = s.rac_cb_fns_map_ c')
    (hhiredis : ∀ c', c' ≠ c → s'.hiredis c' = s.hiredis c') : Kept s s' := by
  refine h.kept (h.of_attached (by rw [hconns, hctx]) ha ?_ ?_ ?_ hmap hhiredis) hconns hio hcon
  · intro c' hc'
    rw [hctx] at hc'
    exact (Option.some.inj hc').symm
  · intro conn' hconn hc'
    exact hconn (h.conn_unique hc' hctx)
  · intro conn' _
    rw [hconns]

theorem setClientAsyncCmdCb_ends (h : Inv s) (hup : (s.conns_ conn).state_ = .CONNECTED)
    (cb : ClientAsyncCmdCb) : Ends (Kept s) (s.SetClientAsyncCmdCb conn (cb, conn)) := by
  obtain ⟨c, fns, ac, hctx, ha⟩ := h.exists_context hup
  unfold SetClientAsyncCmdCb
  rw [hctx]
  simp only [ha.fns_eq]
  have ha' : Attached (s.setFns c (some { fns with client_async_cmd_cbfn_ := some (cb, conn) }))
      conn c { fns with client_async_cmd_cbfn_ := some (cb, conn) } ac := by
    refine ⟨Function.update_self .., ha.context_eq, ha.stat_cbfn, ha.disconnect_cbfn,
      ha.connect_cbfn, ?_, ha.state_eq⟩
    intro cb' hcb'
    rw [← Option.some.inj hcb']
  refine h.kept_of_attached hctx ha' rfl rfl rfl ?_ fun _ _ => rfl
  intro c' hc'
  exact Function.update_of_ne hc' ..

/-- Only the commands without a reply change. -/
theorem Inv.kept_setContext (h : Inv s) (hctx : (s.conns_ conn).context_ = some c)
    {fns : RAC_CbFns hosts} {ac : AsyncContext} (ha : Attached s conn c fns ac)
    (pending : List RedisCommand) :
    Kept s (s.setContext c (some { ac with pending := pending })) := by
  have ha' : Attached (s.setContext c (some { ac with pending := pending })) conn c fns
      { ac with pending := pending } :=
    ⟨ha.fns_eq, Function.update_self .., ha.stat_cbfn, ha.disconnect_cbfn, ha.connect_cbfn,
      ha.client_cbfn, ha.state_eq⟩
  refine h.kept_of_attached hctx ha' rfl rfl rfl (fun _ _ => rfl) ?_
  intro c' hc'
  exact Function.update_of_ne hc' ..

theorem redisAsyncArgCmd_ends (h : Inv s) (conn : Conn hosts) (cmd : RedisCommand) :
    Ends (Kept s) (s.RedisAsyncArgCmd conn cmd) := by
  unfold RedisAsyncArgCmd
  by_cases hup : (s.conns_ conn).state_ = .CONNECTED
  · obtain ⟨c, fns, ac, hctx, ha⟩ := h.exists_context hup
    rw [if_neg (not_not_intro hup), hctx]
    simp only [ha.context_eq]
    exact h.kept_setContext hctx ha _
  · rw [if_pos hup]
    exact h.kept h.toLinked rfl rfl rfl

theorem connUpPrePostProcess_ends (conf : QEConf) (h : Inv s)
    (hup : (s.conns_ conn).state_ = .CONNECTED) : Ends Inv (s.ConnUpPrePostProcess conf conn) := by
  refine (setClientAsyncCmdCb_ends h hup _).bind fun s₁ h₁ => ?_
  exact Ends.imp (redisAsyncArgCmd_ends h₁.toInv conn _) fun s₂ h₂ => h₂.toInv

theorem connUpPostProcess_ends (h : Inv s) (hup : (s.conns_ conn).state_ = .CONNECTED) :
    Ends Inv (s.ConnUpPostProcess conn) := by
  have hset : Ends Inv (if s.connState_ conn = false then
      (s.SetClientAsyncCmdCb conn (.CallbackProcess, conn)).map fun s => s.setConnState conn true
      else .ok s) := by
    split
    · refine Ends.map (setClientAsyncCmdCb_ends h hup _) fun s₁ h₁ => ?_
      have hlinked : Linked (s₁.setConnState conn true) :=
        h₁.frame (fun _ => rfl) (fun _ => rfl) rfl rfl
      exact (h₁.toInv.kept hlinked rfl rfl rfl).toInv
    · exact h
  refine hset.bind fun s₁ h₁ => ?_
  split
  · exact Ends.imp (redisAsyncArgCmd_ends h₁ _ _) fun s₂ h₂ => h₂.toInv
  · exact h₁

/-- Handlers that need no context they do not have, and no attempt to connect. -/
theorem Inv.post (h : Inv s) {handlers : List (Handler hosts)}
    (hneeds : ∀ conn, ∀ x ∈ handlers, needs conn x → (s.conns_ conn).state_ = .CONNECTED)
    (hconnect : ∀ conn, .RAC_Connect conn ∉ handlers) : Inv (s.post handlers) := by
  refine ⟨h.frame (fun _ => rfl) (fun _ => rfl) rfl rfl, ?_, ?_⟩
  · intro conn
    have hle := h.once conn
    unfold attempts QEState.post at *
    rw [List.count_append, List.count_eq_zero_of_not_mem (hconnect conn)]
    exact hle
  · intro conn x hx hn
    rcases List.mem_append.mp hx with hx | hx
    · exact h.queued conn x hx hn
    · exact hneeds conn x hx hn

theorem connectCallbackProcess_ends (h : Inv s) (hup : (s.conns_ conn).state_ = .CONNECTED)
    (r : Option ReplyType) : Ends Inv (s.ConnectCallbackProcess conn r) := by
  unfold ConnectCallbackProcess
  cases r with
  | none => exact h
  | some type =>
    dsimp only
    split
    · refine h.post ?_ (by simp)
      intro conn' x hx hn
      simp only [List.mem_cons, List.not_mem_nil, or_false] at hx
      rcases hx with rfl | rfl
      · simp [needs] at hn
      · have hconn : conn = conn' := by simpa [needs] using hn
        rwa [← hconn]
    · rfl

theorem startPipeline_ends (h : Inv s) (redis_host_idx : Fin hosts)
    (pipeline : Option (Fin kConnections)) :
    Ends (Kept s) (s.StartPipeline redis_host_idx pipeline) := by
  unfold StartPipeline
  cases pipeline with
  | none => exact h.kept h.toLinked rfl rfl rfl
  | some i => exact redisAsyncArgCmd_ends h _ _

theorem callbackProcess_ends (h : Inv s) (hup : (s.conns_ conn).state_ = .CONNECTED)
    (r : Option ReplyType) (pipeline : Option (Fin kConnections)) :
    Ends Inv (s.CallbackProcess conn r pipeline) := by
  unfold CallbackProcess
  split
  · cases r with
    | none => exact h
    | some type =>
      dsimp only
      split
      · rfl
      · refine Ends.map (startPipeline_ends h conn.redis_host_idx pipeline) fun s₁ h₁ => ?_
        refine h₁.toInv.post ?_ (by simp)
        intro conn' x hx hn
        rw [List.mem_singleton.mp hx] at hn
        have hconn : conn = conn' := by simpa [needs] using hn
        rw [h₁.conns_eq, ← hconn]
        exact hup
  · exact h

/-- A reply on a connected context. -/
theorem rac_AsyncCmdCallback_ends (h : Inv s) {fns : RAC_CbFns hosts} {ac : AsyncContext}
    (ha : Attached s conn c fns ac) (hac : ac.connected = true) (r : Option ReplyType)
    (pipeline : Option (Fin kConnections)) : Ends Inv (s.RAC_AsyncCmdCallback c r pipeline) := by
  have hup : (s.conns_ conn).state_ = .CONNECTED := by
    rw [ha.state_eq, if_pos hac]
  unfold RAC_AsyncCmdCallback
  simp only [ha.fns_eq]
  cases hcb : fns.client_async_cmd_cbfn_ with
  | none =>
    simp only [ha.stat_cbfn, Option.isSome_some, if_true]
    exact h
  | some cb =>
    obtain ⟨cb, conn'⟩ := cb
    have hconn : conn' = conn := ha.client_cbfn _ hcb
    subst hconn
    cases cb with
    | ConnectCallbackProcess => exact connectCallbackProcess_ends h hup r
    | CallbackProcess => exact callbackProcess_ends h hup r pipeline

/-- NULL replies change nothing here. -/
theorem nullReplies_eq {fns : RAC_CbFns hosts} {ac : AsyncContext} (ha : Attached s conn c fns ac)
    (pending : List RedisCommand) : nullReplies c pending s = .ok s := by
  have hone : s.RAC_AsyncCmdCallback c none none = .ok s := by
    unfold RAC_AsyncCmdCallback
    simp only [ha.fns_eq]
    cases hcb : fns.client_async_cmd_cbfn_ with
    | none => simp only [ha.stat_cbfn, Option.isSome_some, if_true]
    | some cb =>
      obtain ⟨cb, conn'⟩ := cb
      cases cb with
      | ConnectCallbackProcess => rfl
      | CallbackProcess =>
        dsimp only [CallbackProcess]
        split <;> rfl
  induction pending with
  | nil => rfl
  | cons cmd pending ih =>
    unfold nullReplies
    rw [hone]
    exact ih

/-- The connection alone changes, and makes one attempt at most. -/
theorem once_of_frame {s' : QEState hosts} (h : ∀ conn, attempts s conn ≤ 1)
    (hcon : s'.constructing = s.constructing)
    (hconns : ∀ conn', conn' ≠ conn → s'.conns_ conn' = s.conns_ conn')
    (hio : ∀ conn', conn' ≠ conn → s'.io_service.count (.RAC_Connect conn') =
      s.io_service.count (.RAC_Connect conn'))
    (hle : attempts s' conn ≤ 1) (conn' : Conn hosts) : attempts s' conn' ≤ 1 := by
  by_cases hconn : conn' = conn
  · rw [hconn]
    exact hle
  · have := h conn'
    unfold attempts at this ⊢
    rw [hcon, hconns conn' hconn, hio conn' hconn]
    exact this

theorem setConn_of_ne {conn' : Conn hosts} (hconn : conn' ≠ conn) (rac : RedisAsyncConnection) :
    (s.setConn conn rac).conns_ conn' = s.conns_ conn' :=
  Function.update_of_ne hconn ..

theorem setConn_self (rac : RedisAsyncConnection) : (s.setConn conn rac).conns_ conn = rac :=
  Function.update_self ..

theorem waitReconnect_inv (h : Inv s) (hzero : attempts s conn = 0) :
    Inv (s.waitReconnect conn) := by
  have hsame : ∀ conn', ((s.waitReconnect conn).conns_ conn').context_ = (s.conns_ conn').context_ ∧
      ((s.waitReconnect conn).conns_ conn').state_ = (s.conns_ conn').state_ := by
    intro conn'
    unfold waitReconnect
    by_cases hconn : conn' = conn
    · rw [hconn, setConn_self]
      exact ⟨rfl, rfl⟩
    · rw [setConn_of_ne hconn]
      exact ⟨rfl, rfl⟩
  refine ⟨h.frame (fun conn' => (hsame conn').1) (fun conn' => (hsame conn').2) rfl rfl, ?_, ?_⟩
  · refine once_of_frame h.once rfl (fun conn' hconn => setConn_of_ne hconn _) (fun _ _ => rfl) ?_
    unfold attempts waitReconnect at *
    rw [setConn_self]
    show s.constructing.count conn + (if (s.conns_ conn).context_.isSome then 1 else 0) +
      ((s.conns_ conn).reconnect_timer_ + 1) + s.io_service.count (.RAC_Connect conn) ≤ 1
    omega
  · intro conn' x hx hn
    rw [(hsame conn').2]
    exact h.queued conn' x hx hn

theorem attach_inv (h : Inv s) (hzero : attempts s conn = 0)
    (hnone : (s.conns_ conn).context_ = none) (hc : s.hiredis c = none) :
    Inv (((s.setContext c (some ⟨false, true, true, []⟩)).setFns c
      (some ⟨some conn, some conn, some conn, none⟩)).setConn conn
      { s.conns_ conn with context_ := some c, state_ := .PENDING }) := by
  refine ⟨?_, ?_, ?_⟩
  · refine h.of_attached (congrArg RedisAsyncConnection.context_ (setConn_self _))
      ⟨Function.update_self .., Function.update_self .., rfl, rfl, rfl, ?_, ?_⟩ ?_ ?_
      (fun conn' hconn => setConn_of_ne hconn _) (fun c' hc' => Function.update_of_ne hc' ..)
      fun c' hc' => Function.update_of_ne hc' ..
    · intro cb hcb
      cases hcb
    · exact congrArg RedisAsyncConnection.state_ (setConn_self _)
    · intro c' hc'
      rw [hnone] at hc'
      cases hc'
    · intro conn' _ hc'
      obtain ⟨fns, ac, ha⟩ := h.attached conn' c hc'
      have := ha.context_eq
      rw [hc] at this
      cases this
  · refine once_of_frame h.once rfl (fun conn' hconn => setConn_of_ne hconn _) (fun _ _ => rfl) ?_
    unfold attempts at *
    rw [setConn_self]
    show s.constructing.count conn + 1 + (s.conns_ conn).reconnect_timer_ +
      s.io_service.count (.RAC_Connect conn) ≤ 1
    omega
  · intro conn' x hx hn
    have hup := h.queued conn' x hx hn
    have hconn : conn' ≠ conn := fun heq => h.down conn hnone (heq ▸ hup)
    rw [setConn_of_ne hconn]
    exact hup

/-- A call of RAC_Connect for a connection that is not connecting already. -/
theorem rac_Connect_ends (conf : QEConf) (h : Inv s) (hzero : attempts s conn = 0)
    {context : Option ContextPtr} (hfresh : s.fresh context = true) (secure : Bool) :
    ∃ s', s.RAC_Connect conf conn context secure = .ok (s', true) ∧ Inv s' := by
  have hnone : (s.conns_ conn).context_ = none := by
    unfold attempts at hzero
    cases hctx : (s.conns_ conn).context_ with
    | none => rfl
    | some c =>
      rw [hctx] at hzero
      simp at hzero
  unfold RAC_Connect
  rw [hnone]
  simp only [Option.isSome_none, Bool.false_eq_true, if_false]
  cases context with
  | none => exact ⟨_, rfl, waitReconnect_inv h hzero⟩
  | some c =>
    dsimp only
    split
    · exact ⟨_, rfl, waitReconnect_inv h hzero⟩
    · have hc : s.hiredis c = none := by simpa [fresh] using hfresh
      have hmap : s.rac_cb_fns_map_ c = none := by
        by_contra hne
        have := h.mapped c (Option.isSome_iff_ne_none.mpr hne)
        rw [hc] at this
        cases this
      rw [hmap]
      exact ⟨_, rfl, attach_inv h hzero hnone hc⟩

theorem rac_Reconnect_ends (conf : QEConf) (h : Inv s) (hzero : attempts s conn = 0)
    (canceled : Bool) {context : Option ContextPtr} (hfresh : s.fresh context = true)
    (secure : Bool) : Ends Inv (s.RAC_Reconnect conf conn canceled context secure) := by
  unfold RAC_Reconnect
  split
  · exact h
  · obtain ⟨s', hs', hinv⟩ := rac_Connect_ends conf h hzero hfresh secure
    rw [hs']
    exact hinv

/-- A connection loses its context and tries once more, by its timer or by a
handler, if none of its handlers needs the context. -/
theorem detach_inv {s' : QEState hosts} (handlers : List (Handler hosts)) (h : Inv s)
    (hctx : (s.conns_ conn).context_ = some c) (hfree : ∀ x ∈ s.io_service, ¬ needs conn x)
    (hnone : (s'.conns_ conn).context_ = none) (hdown : (s'.conns_ conn).state_ ≠ .CONNECTED)
    (hconns : ∀ conn', conn' ≠ conn → s'.conns_ conn' = s.conns_ conn')
    (hmap : s'.rac_cb_fns_map_ = Function.update s.rac_cb_fns_map_ c none)
    (hhiredis : s'.hiredis = Function.update s.hiredis c none)
    (hcon : s'.constructing = s.constructing) (hio : s'.io_service = s.io_service ++ handlers)
    (hneeds : ∀ conn', ∀ x ∈ handlers, ¬ needs conn' x)
    (hother : ∀ conn', conn' ≠ conn → .RAC_Connect conn' ∉ handlers)
    (hretry : (s'.conns_ conn).reconnect_timer_ + handlers.count (.RAC_Connect conn) ≤
      (s.conns_ conn).reconnect_timer_ + 1) : Inv s' := by
  refine ⟨?_, ?_, ?_⟩
  · refine h.of_detached hctx hnone hdown hconns ?_ ?_ ?_ ?_
    · rw [hmap]
      exact Function.update_self ..
    · intro c' hc'
      rw [hmap]
      exact Function.update_of_ne hc' ..
    · rw [hhiredis]
      exact Function.update_self ..
    · intro c' hc'
      rw [hhiredis]
      exact Function.update_of_ne hc' ..
  · refine once_of_frame h.once hcon hconns ?_ ?_
    · intro conn' hconn
      rw [hio, List.count_append, List.count_eq_zero_of_not_mem (hother conn' hconn)]
      rfl
    · have hle := h.once conn
      unfold attempts at hle ⊢
      rw [hctx] at hle
      rw [hcon, hio, hnone, List.count_append]
      simp only [Option.isSome_some, if_true, Option.isSome_none, Bool.false_eq_true, if_false]
        at hle ⊢
      omega
  · intro conn' x hx hn
    rw [hio] at hx
    rcases List.mem_append.mp hx with hx | hx
    · have hconn : conn' ≠ conn := fun heq => hfree x hx (heq ▸ hn)
      rw [hconns conn' hconn]
      exact h.queued conn' x hx hn
    · exact absurd hn (hneeds conn' x hx)

theorem dropContext_eq (hctx : (s.conns_ conn).context_ = some c) :
    s.dropContext conn = (s.setFns c none).setConn conn { s.conns_ conn with context_ := none } := by
  unfold dropContext
  rw [hctx]

/-- The context of a connection is connected. -/
theorem connected_inv (h : Inv s) (hctx : (s.conns_ conn).context_ = some c)
    {fns : RAC_CbFns hosts} {ac : AsyncContext} (ha : Attached s conn c fns ac) :
    Inv (((s.setContext c (some { ac with connected := true })).setFns c
      (some { fns with connect_cbfn_ := none })).RAC_ConnectCallbackProcess conn true) := by
  let s₁ := ((s.setContext c (some { ac with connected := true })).setFns c
    (some { fns with connect_cbfn_ := none })).setConn conn
      { s.conns_ conn with state_ := .CONNECTED }
  have hup : (s₁.conns_ conn).state_ = .CONNECTED :=
    congrArg RedisAsyncConnection.state_ (setConn_self _)
  have hinv : Inv s₁ := by
    refine ⟨?_, ?_, ?_⟩
    · refine h.of_attached ((congrArg RedisAsyncConnection.context_ (setConn_self _)).trans hctx)
        ⟨Function.update_self .., Function.update_self .., ha.stat_cbfn, ha.disconnect_cbfn, rfl,
          ha.client_cbfn, hup⟩ ?_ ?_ (fun conn' hconn => setConn_of_ne hconn _)
        (fun c' hc' => Function.update_of_ne hc' ..) fun c' hc' => Function.update_of_ne hc' ..
      · intro c' hc'
        rw [hctx] at hc'
        exact (Option.some.inj hc').symm
      · intro conn' hconn hc'
        exact hconn (h.conn_unique hc' hctx)
    · refine once_of_frame h.once rfl (fun conn' hconn => setConn_of_ne hconn _) (fun _ _ => rfl) ?_
      have hle := h.once conn
      unfold attempts at hle ⊢
      rw [setConn_self]
      exact hle
    · intro conn' x hx hn
      by_cases hconn : conn' = conn
      · rw [hconn]
        exact hup
      · rw [show s₁.conns_ conn' = s.conns_ conn' from setConn_of_ne hconn _]
        exact h.queued conn' x hx hn
  show Inv (s₁.post [.ConnUpPrePostProcess conn])
  refine hinv.post ?_ (by simp)
  intro conn' x hx hn
  rw [List.mem_singleton.mp hx] at hn
  have hconn : conn = conn' := by simpa [needs] using hn
  rw [← hconn]
  exact hup

/-- The connect callback of a context. -/
theorem connect_ends (h : Inv s) {ac : AsyncContext} (hac : s.hiredis c = some ac)
    (hconnected : ac.connected = false) (status : Bool) :
    Ends Inv ((s.setContext c
      (if status then some { ac with connected := true } else none)).RAC_ConnectCallback c status) := by
  obtain ⟨conn, hctx⟩ := h.owned c (by rw [hac]; rfl)
  obtain ⟨fns, ac', ha⟩ := h.attached conn c hctx
  have hsame : ac' = ac := Option.some.inj (ha.context_eq.symm.trans hac)
  subst hsame
  have hcb : fns.connect_cbfn_ = some conn := by
    rw [ha.connect_cbfn, hconnected]
    rfl
  have hpending : (s.conns_ conn).state_ = .PENDING := by
    rw [ha.state_eq, hconnected]
    rfl
  unfold RAC_ConnectCallback
  have hmap : ∀ x, (s.setContext c x).rac_cb_fns_map_ c = some fns := fun _ => ha.fns_eq
  rw [hmap]
  simp only [hcb]
  cases status with
  | true => exact connected_inv h hctx ha
  | false =>
    have hfree : ∀ x ∈ s.io_service, ¬ needs conn x := by
      intro x hx hn
      have hup := h.queued conn x hx hn
      rw [hpending] at hup
      cases hup
    let s₁ := (s.setContext c none).setFns c (some { fns with connect_cbfn_ := none })
    have hctx₁ : (s₁.conns_ conn).context_ = some c := hctx
    show Inv ((s₁.dropContext conn).waitReconnect conn)
    rw [dropContext_eq hctx₁]
    have hself : ∀ rac : RedisAsyncConnection,
        (((s₁.setFns c none).setConn conn rac).waitReconnect conn).conns_ conn =
          { rac with reconnect_timer_ := rac.reconnect_timer_ + 1 } := by
      intro rac
      unfold waitReconnect
      rw [setConn_self, setConn_self]
    refine detach_inv [] h hctx hfree ?_ ?_ ?_ (Function.update_idem ..) rfl rfl
      (List.append_nil _).symm (fun _ x hx => by cases hx) (fun _ _ hx => by cases hx) ?_
    · rw [hself]
    · rw [hself]
      show (s.conns_ conn).state_ ≠ .CONNECTED
      rw [hpending]
      exact nofun
    · intro conn' hconn
      unfold waitReconnect
      rw [setConn_of_ne hconn, setConn_of_ne hconn]
      rfl
    · rw [hself]
      exact le_refl _

/-- The disconnect callback of a context, if no handler needs it. -/
theorem disconnect_ends (h : Inv s) {ac : AsyncContext} (hac : s.hiredis c = some ac)
    (hdone : ∀ conn, (s.conns_ conn).context_ = some c → ∀ x ∈ s.io_service, ¬ needs conn x) :
    Ends Inv ((nullReplies c ac.pending s).bind fun s =>
      (s.setContext c none).RAC_DisconnectCallback c) := by
  obtain ⟨conn, hctx⟩ := h.owned c (by rw [hac]; rfl)
  obtain ⟨fns, ac', ha⟩ := h.attached conn c hctx
  rw [nullReplies_eq ha]
  show Ends Inv ((s.setContext c none).RAC_DisconnectCallback c)
  unfold RAC_DisconnectCallback
  rw [show (s.setContext c none).rac_cb_fns_map_ c = some fns from ha.fns_eq]
  simp only [ha.disconnect_cbfn]
  let s₁ := (s.setContext c none).setFns c (some { fns with disconnect_cbfn_ := none })
  have hctx₁ : (s₁.conns_ conn).context_ = some c := hctx
  show Inv (s₁.RAC_DisconnectCallbackProcess conn)
  unfold RAC_DisconnectCallbackProcess
  rw [dropContext_eq hctx₁]
  have hself : ∀ rac rac' : RedisAsyncConnection,
      ((((s₁.setFns c none).setConn conn rac).setConn conn rac').ConnDown conn).conns_ conn = rac' :=
    fun rac rac' => setConn_self _
  refine detach_inv [.UpdateRedisConnectionStatus, .RAC_Connect conn] h hctx (hdone conn hctx)
    ?_ ?_ ?_ (Function.update_idem ..) rfl rfl rfl ?_ ?_ ?_
  · rw [hself, setConn_self]
  · rw [hself]
    exact nofun
  · intro conn' hconn
    exact (setConn_of_ne hconn _).trans (setConn_of_ne hconn _)
  · intro conn' x hx hn
    simp only [List.mem_cons, List.not_mem_nil, or_false] at hx
    rcases hx with rfl | rfl <;> simp [needs] at hn
  · intro conn' hconn hx
    simp only [List.mem_cons, List.not_mem_nil, or_false, reduceCtorEq, false_or,
      Handler.RAC_Connect.injEq] at hx
    exact hconn hx
  · rw [hself, setConn_self]
    show (s.conns_ conn).reconnect_timer_ + _ ≤ _
    simp

end Calls

-- ---------------------------------------------------------------------------
-- Whole runs
-- ---------------------------------------------------------------------------

section Runs

variable {conf : QEConf} {s : QEState hosts}

/-- Less is queued and there are fewer attempts. -/
theorem Inv.weaken {s₁ : QEState hosts} (h : Inv s)
    (hctx : ∀ conn, (s₁.conns_ conn).context_ = (s.conns_ conn).context_)
    (hstate : ∀ conn, (s₁.conns_ conn).state_ = (s.conns_ conn).state_)
    (hmap : s₁.rac_cb_fns_map_ = s.rac_cb_fns_map_) (hhiredis : s₁.hiredis = s.hiredis)
    (hio : ∀ x ∈ s₁.io_service, x ∈ s.io_service)
    (hless : ∀ conn, attempts s₁ conn ≤ attempts s conn) : Inv s₁ := by
  refine ⟨h.frame hctx hstate hmap hhiredis, fun conn => (hless conn).trans (h.once conn), ?_⟩
  intro conn x hx hn
  rw [hstate]
  exact h.queued conn x (hio x hx) hn

theorem rac_alloc_ends (h : Inv s) {conn : Conn hosts} {rest : List (Conn hosts)}
    (hcon : s.constructing = conn :: rest) {context : Option ContextPtr}
    (hfresh : s.fresh context = true) (secure : Bool) :
    Ends Inv (({ s with constructing := rest }.RAC_Connect conf conn context secure).map
      Prod.fst) := by
  have hinv : Inv { s with constructing := rest } := by
    refine h.weaken (fun _ => rfl) (fun _ => rfl) rfl rfl (fun _ hx => hx) fun conn' => ?_
    have hle := List.count_le_count_cons (a := conn') (b := conn) (l := rest)
    unfold attempts
    rw [hcon]
    dsimp only
    omega
  have hzero : attempts { s with constructing := rest } conn = 0 := by
    have hle := h.once conn
    unfold attempts at hle ⊢
    rw [hcon, List.count_cons_self] at hle
    dsimp only
    omega
  obtain ⟨s', hs', hinv'⟩ := rac_Connect_ends conf hinv hzero hfresh secure
  rw [hs']
  exact hinv'

theorem timer_ends (h : Inv s) {conn : Conn hosts} (hwait : 0 < (s.conns_ conn).reconnect_timer_)
    (canceled : Bool) {context : Option ContextPtr} (hfresh : s.fresh context = true)
    (secure : Bool) :
    Ends Inv ((s.setConn conn { s.conns_ conn with
      reconnect_timer_ := (s.conns_ conn).reconnect_timer_ - 1 }).RAC_Reconnect conf conn canceled
        context secure) := by
  let s₁ := s.setConn conn { s.conns_ conn with
    reconnect_timer_ := (s.conns_ conn).reconnect_timer_ - 1 }
  have hself : s₁.conns_ conn = { s.conns_ conn with
      reconnect_timer_ := (s.conns_ conn).reconnect_timer_ - 1 } := setConn_self _
  have hless : attempts s₁ conn + 1 = attempts s conn := by
    unfold attempts
    rw [hself]
    show s.constructing.count conn + (if (s.conns_ conn).context_.isSome then 1 else 0) +
      ((s.conns_ conn).reconnect_timer_ - 1) + s.io_service.count (.RAC_Connect conn) + 1 = _
    omega
  have hother : ∀ conn', conn' ≠ conn → s₁.conns_ conn' = s.conns_ conn' :=
    fun conn' hconn => setConn_of_ne hconn _
  have hfields : ∀ conn', (s₁.conns_ conn').context_ = (s.conns_ conn').context_ ∧
      (s₁.conns_ conn').state_ = (s.conns_ conn').state_ := by
    intro conn'
    by_cases hconn : conn' = conn
    · rw [hconn, hself]
      exact ⟨rfl, rfl⟩
    · rw [hother conn' hconn]
      exact ⟨rfl, rfl⟩
  have hinv : Inv s₁ := by
    refine h.weaken (fun conn' => (hfields conn').1) (fun conn' => (hfields conn').2) rfl rfl
      (fun _ hx => hx) ?_
    · intro conn'
      by_cases hconn : conn' = conn
      · rw [hconn]
        omega
      · unfold attempts
        rw [hother conn' hconn]
        exact le_refl _
  have hzero : attempts s₁ conn = 0 := by
    have := h.once conn
    omega
  exact rac_Reconnect_ends conf hinv hzero canceled hfresh secure

theorem handler_ends (h : Inv s) {x : Handler hosts} {rest : List (Handler hosts)}
    (hio : s.io_service = x :: rest) {context : Option ContextPtr}
    (hfresh : s.fresh context = true) (secure : Bool) :
    Ends Inv ({ s with io_service := rest }.runHandler conf context secure x) := by
  have hinv : Inv { s with io_service := rest } := by
    refine h.weaken (fun _ => rfl) (fun _ => rfl) rfl rfl ?_ fun conn => ?_
    · intro y hy
      rw [hio]
      exact List.mem_cons_of_mem x hy
    · have hle := List.count_le_count_cons (a := Handler.RAC_Connect conn) (b := x) (l := rest)
      unfold attempts
      rw [hio]
      dsimp only
      omega
  have hup : ∀ conn, needs conn x → (s.conns_ conn).state_ = .CONNECTED := by
    intro conn hn
    exact h.queued conn x (by rw [hio]; exact List.mem_cons_self) hn
  cases x with
  | ConnUpPrePostProcess conn => exact connUpPrePostProcess_ends conf hinv (hup conn (Or.inl rfl))
  | ConnUpPostProcess conn => exact connUpPostProcess_ends hinv (hup conn (Or.inr rfl))
  | UpdateRedisConnectionStatus => exact hinv
  | RAC_Connect conn =>
    have hzero : attempts { s with io_service := rest } conn = 0 := by
      have hle := h.once conn
      unfold attempts at hle ⊢
      rw [hio, List.count_cons_self] at hle
      dsimp only
      omega
    obtain ⟨s', hs', hinv'⟩ := rac_Connect_ends conf hinv hzero hfresh secure
    show Ends Inv (({ s with io_service := rest }.RAC_Connect conf conn context secure).map Prod.fst)
    rw [hs']
    exact hinv'

theorem reply_ends (h : Inv s) {c : ContextPtr} {ac : AsyncContext} (hac : s.hiredis c = some ac)
    (hconnected : ac.connected = true) (pending : List RedisCommand) (r : Option ReplyType)
    (pipeline : Option (Fin kConnections)) :
    Ends Inv ((s.setContext c (some { ac with pending := pending })).RAC_AsyncCmdCallback c r
      pipeline) := by
  obtain ⟨conn, hctx⟩ := h.owned c (by rw [hac]; rfl)
  obtain ⟨fns, ac₀, ha⟩ := h.attached conn c hctx
  have hsame : ac = ac₀ := Option.some.inj (hac.symm.trans ha.context_eq)
  subst hsame
  have hkept := h.kept_setContext hctx ha pending
  obtain ⟨fns', ac', ha'⟩ := hkept.attached conn c hctx
  have hac' : ac' = { ac with pending := pending } :=
    Option.some.inj (ha'.context_eq.symm.trans (Function.update_self ..))
  exact rac_AsyncCmdCallback_ends hkept.toInv ha' (by rw [hac']; exact hconnected) r pipeline

theorem inv_step (h : Inv s) {e : Event hosts} (hok : HandlersDone (.ok s) e)
    {r : Except Fault (QEState hosts)} (hstep : s.event conf e = some r) : Ends Inv r := by
  cases e with
  | rac_alloc context secure =>
    dsimp only [event] at hstep
    split at hstep
    · cases hstep
    · next conn rest hcon =>
      split at hstep
      · next hfresh =>
        injection hstep with hstep
        rw [← hstep]
        -- the constructor connects for the first time
        exact rac_alloc_ends h hcon hfresh secure
      · cases hstep
  | connect c status =>
    dsimp only [event] at hstep
    split at hstep
    · cases hstep
    · next ac hac =>
      split at hstep
      · cases hstep
      · next hcond =>
        injection hstep with hstep
        rw [← hstep]
        refine connect_ends h hac ?_ status
        -- a context connects once
        cases hc : ac.connected with
        | false => rfl
        | true => exact absurd (by rw [hc]; rfl) hcond
  | reply c type pipeline =>
    dsimp only [event] at hstep
    split at hstep
    · cases hstep
    · next ac hac =>
      split at hstep
      · next hconnected =>
        split at hstep
        · cases hstep
        · -- the reply belongs to the oldest command
          next pending _ =>
          injection hstep with hstep
          rw [← hstep]
          exact reply_ends h hac hconnected pending (some type) pipeline
      · cases hstep
  | disconnect c =>
    dsimp only [event] at hstep
    split at hstep
    · cases hstep
    · next ac hac =>
      split at hstep
      · injection hstep with hstep
        rw [← hstep]
        -- a callback that is still running may not free the context
        refine disconnect_ends h hac ?_
        rintro conn hctx x hx (rfl | rfl)
        · exact (hok conn hctx).1 hx
        · exact (hok conn hctx).2 hx
      · cases hstep
  | timer conn canceled context secure =>
    dsimp only [event] at hstep
    split at hstep
    · next hcond =>
      injection hstep with hstep
      rw [← hstep]
      exact timer_ends h hcond.1 canceled hcond.2 secure
    · cases hstep
  | handler context secure =>
    dsimp only [event] at hstep
    split at hstep
    · cases hstep
    · next x rest hio =>
      split at hstep
      · next hfresh =>
        injection hstep with hstep
        rw [← hstep]
        exact handler_ends h hio hfresh secure
      · cases hstep
  | command conn =>
    injection hstep with hstep
    rw [← hstep]
    exact Ends.imp (redisAsyncArgCmd_ends h conn _) fun s' h' => h'.toInv

end Runs

theorem allConns_nodup (hosts : Nat) : (allConns hosts).Nodup := by
  unfold allConns
  refine List.nodup_flatMap.mpr ⟨fun i _ => ?_, ?_⟩
  · refine (List.nodup_finRange _).map ?_
    intro n n' heq
    exact congrArg Conn.cnum heq
  · refine (List.nodup_finRange hosts).imp ?_
    intro i i' hne conn hconn hconn'
    obtain ⟨n, -, rfl⟩ := List.mem_map.mp hconn
    obtain ⟨n', -, heq⟩ := List.mem_map.mp hconn'
    exact hne (congrArg Conn.redis_host_idx heq).symm

theorem inv_init (hosts : Nat) (conf : QEConf) : Ends Inv (qeSystem hosts conf).init := by
  refine ⟨⟨nofun, nofun, nofun, fun _ _ => nofun⟩, ?_, nofun⟩
  intro conn
  have hle := List.nodup_iff_count_le_one.mp (allConns_nodup hosts) conn
  exact hle

/-- In runs where no connection is lost while a ConnUpPrePostProcess or
ConnUpPostProcess handler of it is queued, the process is not ended by an assertion
on a context, and connections that commands are sent on have a context that is in
use. -/
theorem no_assertion_fails {hosts : Nat} {conf : QEConf} {p : Except Fault (QEState hosts)}
    (h : (qeSystem hosts conf).ReachableVia HandlersDone p) :
    (∀ fault, p = .error fault → fault = .QE_ASSERT) ∧
      ∀ s, p = .ok s → ∀ conn, (s.conns_ conn).state_ = .CONNECTED →
        ∃ c ac, (s.conns_ conn).context_ = some c ∧ s.hiredis c = some ac ∧ ac.connected = true := by
  have hends : Ends Inv p := by
    refine h.invariant (inv_init hosts conf) ?_
    intro p e p' hp hok hstep
    cases p with
    | error fault => cases hstep
    | ok s =>
      have hevent : s.event conf e = some p' := by
        cases e with
        | rac_alloc context secure => exact hstep
        | _ =>
          have hstep : (if s.constructing = [] then s.event conf _ else none) = some p' := hstep
          split at hstep
          · exact hstep
          · cases hstep
      exact inv_step hp hok hevent
  refine ⟨?_, ?_⟩
  · rintro fault rfl
    exact hends
  · rintro s rfl conn hup
    have hinv : Inv s := hends
    obtain ⟨c, fns, ac, hctx, ha⟩ := hinv.exists_context hup
    refine ⟨c, ac, hctx, ha.context_eq, ?_⟩
    by_contra hne
    have hstate := ha.state_eq
    rw [if_neg hne, hup] at hstate
    cases hstate

/-- The constructor with one redis host, whose connections get the contexts 0 to 4. -/
def construction : List (Event 1) :=
  [.rac_alloc (some 0) true, .rac_alloc (some 1) true, .rac_alloc (some 2) true,
    .rac_alloc (some 3) true, .rac_alloc (some 4) true]

/-- Two connections come up, and the first is lost when its handlers are done. -/
theorem no_assertion_sample :
    ∃ s, (qeSystem 1 ⟨"", false⟩).ReachableVia HandlersDone (.ok s) ∧
      (s.conns_ ⟨0, 0⟩).state_ = .DISCONNECTED ∧
      ∃ c ac, (s.conns_ ⟨0, 1⟩).context_ = some c ∧ s.hiredis c = some ac ∧
        ac.connected = true := by
  have hrun : ∃ s s', (qeSystem 1 ⟨"", false⟩).run (construction ++
        [.connect 0 true, .connect 1 true, .handler none true, .handler none true,
          .reply 0 .STATUS none, .handler none true, .handler none true]) = some (.ok s) ∧
      s.io_service = [] ∧
      (qeSystem 1 ⟨"", false⟩).step (.ok s) (.disconnect 0) = some (.ok s') ∧
      (s'.conns_ ⟨0, 0⟩).state_ = .DISCONNECTED ∧ (s'.conns_ ⟨0, 1⟩).state_ = .CONNECTED :=
    ⟨_, _, rfl, rfl, rfl, rfl, rfl⟩
  obtain ⟨s, s', hrun, hio, hstep, hdown, hup⟩ := hrun
  have hs : (qeSystem 1 ⟨"", false⟩).ReachableVia HandlersDone (.ok s) := by
    refine System.reachableVia_of_run hrun ?_
    intro e he p _ _
    simp only [construction, List.cons_append, List.nil_append, List.mem_cons, List.not_mem_nil,
      or_false] at he
    rcases he with rfl | rfl | rfl | rfl | rfl | rfl | rfl | rfl | rfl | rfl | rfl | rfl <;>
      cases p <;> trivial
  have hs' : (qeSystem 1 ⟨"", false⟩).ReachableVia HandlersDone (.ok s') := by
    refine hs.step ?_ hstep
    intro conn _
    rw [hio]
    exact ⟨List.not_mem_nil, List.not_mem_nil⟩
  exact ⟨s', hs', hdown, (no_assertion_fails hs').2 s' rfl ⟨0, 1⟩ hup⟩

/-- A peer that accepts and closes at once: ConnUpPrePostProcess finds no context. -/
theorem peer_closes_at_once :
    ¬ ∀ p, (qeSystem 1 ⟨"", false⟩).Reachable p →
      ∀ fault, p = .error fault → fault = .QE_ASSERT := by
  intro hclaim
  have hrun : (qeSystem 1 ⟨"", false⟩).run (construction ++
      [.connect 0 true, .disconnect 0, .handler none true]) =
        some (.error .SetClientAsyncCmdCb) := rfl
  cases hclaim _ (System.reachable_of_run hrun) _ rfl

end TfAnalytics.QueryEngine.RedisConnection
