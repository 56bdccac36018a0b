import Mathlib.Data.List.Infix
import GnomeVfs.FtpControl
import GnomeVfs.Pool

/- The pools of connections of the FTP method, and how connections are made, used again and given up. -/
namespace GnomeVfs.Ftp

open Interaction

variable {M : Type}

/-- `FtpCachedDirlist`. -/
structure Dirlist where
  dirlist : Bytes
  readTime : Nat
  deriving DecidableEq

/-- `FtpConnectionPool`. -/
structure Pool where
  ip : Option Bytes
  serverType : Option Bytes
  user : Option Bytes
  password : Option Bytes
  lastUse : Nat
  spareConnections : List Nat
  numConnections : Int
  numMonitors : Int
  cachedDirlists : List (Bytes × Dirlist)
  deriving DecidableEq

def Pool.new : Pool := ⟨none, none, none, none, 0, [], 0, 0, []⟩

/-- What becomes of a connection: it is being made, with or without its caller in an authentication
callback, it is spare or in use, and in the end it is freed. -/
inductive Place where
  | building | asking | spare | used | gone
  deriving DecidableEq

/-- A connection with its pool; `socket` is whether there is a `socket_buf`. -/
structure Entry (M : Type) where
  pool : Nat
  place : Place
  socket : Bool
  record : Connection M
  deriving DecidableEq

/-- What distinguishes FTP connections in a URI. -/
structure Key where
  host : Option Bytes
  user : Option Bytes
  password : Option Bytes
  port : UInt32
  deriving DecidableEq

/-- The fields that `ftp_connection_uri_equal` compares. -/
def Key.of (uri : Uri M) : Key :=
  ⟨uri.getToplevel.hostName, uri.getToplevel.userName, uri.getToplevel.password, uri.getToplevel.hostPort⟩

/-- The variables that `connection_pools` protects. A pool that has been freed leaves its place empty.
`monitors` are the handles that `do_monitor_add` has given out, and `failed` is whether an assertion
has failed or memory has been used after it was freed. -/
structure Tables (M : Type) where
  connectionPools : List (Key × Nat)
  pools : List (Option Pool)
  connections : List (Entry M)
  connectionPoolTimeout : Bool
  monitors : List Nat
  failed : Bool
  deriving DecidableEq

def Tables.new : Tables M := ⟨[], [], [], false, [], false⟩

def Tables.pool (s : Tables M) (p : Nat) : Option Pool := s.pools[p]?.join

def Tables.updatePool (s : Tables M) (p : Nat) (f : Pool → Pool) : Tables M :=
  if (s.pool p).isSome then { s with pools := s.pools.modify p (Option.map f) } else { s with failed := true }

def Tables.updateConnection (s : Tables M) (c : Nat) (f : Entry M → Entry M) : Tables M :=
  { s with connections := s.connections.modify c f }

/-- A connection goes to another place, and its pool counts it or does not. -/
def Tables.move (s : Tables M) (c : Nat) (place : Place) (delta : Int) : Tables M :=
  match s.connections[c]? with
  | none => s
  | some entry =>
    (s.updateConnection c fun entry => { entry with place := place }).updatePool entry.pool fun pool =>
      { pool with numConnections := pool.numConnections + delta }

/-- `ftp_connection_pool_lookup`. -/
def ftpConnectionPoolLookup (uri : Uri M) (s : Tables M) : Nat × Tables M :=
  match s.connectionPools.find? fun entry => entry.1 = Key.of uri with
  | some (_, p) => (p, s)
  | none =>
    (s.pools.length, { s with
      connectionPools := s.connectionPools ++ [(Key.of uri, s.pools.length)]
      pools := s.pools ++ [some .new] })

/-- `ftp_connection_destroy`. -/
def ftpConnectionDestroy (c : Nat) (s : Tables M) : Tables M := s.move c .gone (-1)

/-- `ftp_connection_pool_free`. -/
def ftpConnectionPoolFree (p : Nat) (s : Tables M) : Tables M :=
  match s.pool p with
  | none => { s with failed := true }
  | some pool =>
    { s with
      pools := s.pools.set p none
      failed := s.failed || !(pool.numConnections == 0 && pool.numMonitors == 0 && pool.spareConnections == []) }

/-- `CONNECTION_CACHE_MIN_LIFETIME`, which is compared with seconds. -/
def connectionCacheMinLifetime : Nat := 30 * 1000

/-- `ftp_connection_pool_reap`: whether the pool is removed, and whether the timeout is to go on. -/
def ftpConnectionPoolReap (now p : Nat) (s : Tables M) : Bool × Bool × Tables M :=
  match s.pool p with
  | none => (false, false, { s with failed := true })
  | some pool =>
    if pool.lastUse ≤ now ∧ now ≤ pool.lastUse + connectionCacheMinLifetime then
      (false, pool.spareConnections ≠ [] ∨ (pool.numConnections = 0 ∧ pool.numMonitors ≤ 0), s)
    else
      let s := (pool.spareConnections.foldl (fun s c => ftpConnectionDestroy c s) s).updatePool p
        fun pool => { pool with spareConnections := [] }
      match s.pool p with
      | some pool =>
        if pool.numConnections = 0 ∧ pool.numMonitors ≤ 0 then (true, false, ftpConnectionPoolFree p s)
        else (false, false, s)
      | none => (false, false, s)

/-- The pools are gone through, each at its own time, and those to be removed are taken out of the
table. -/
def reapEntries (now : Nat → Nat) : List (Key × Nat) → Tables M → Bool × List (Key × Nat) × Tables M
  | [], s => (false, [], s)
  | entry :: rest, s =>
    let (remove, continue₁, s) := ftpConnectionPoolReap (now entry.2) entry.2 s
    let (continue₂, kept, s) := reapEntries now rest s
    (continue₁ || continue₂, if remove then kept else entry :: kept, s)

/-- `ftp_connection_pools_reap`. -/
def ftpConnectionPoolsReap (now : Nat → Nat) (s : Tables M) : Tables M :=
  let (continueTimeout, kept, s) := reapEntries now s.connectionPools s
  { s with connectionPools := kept, connectionPoolTimeout := continueTimeout }

/-- `ftp_connection_release`. -/
def ftpConnectionRelease (c : Nat) (errorRelease : Bool) (s : Tables M) : Tables M :=
  let s := s.updateConnection c fun entry => { entry with record := { entry.record with fivefifty := .notFound } }
  let s :=
    if errorRelease then ftpConnectionDestroy c s
    else
      match s.connections[c]? with
      | none => s
      | some entry => (s.move c .spare 0).updatePool entry.pool fun pool =>
        { pool with spareConnections := c :: pool.spareConnections }
  { s with connectionPoolTimeout := true }

/-- `do_monitor_add` on a directory. -/
def doMonitorAdd (uri : Uri M) (s : Tables M) : Tables M :=
  let (p, s) := ftpConnectionPoolLookup uri s
  { s.updatePool p fun pool => { pool with numMonitors := pool.numMonitors + 1 } with monitors := p :: s.monitors }

/-- `do_monitor_cancel`. -/
def doMonitorCancel (p : Nat) (s : Tables M) : Tables M :=
  { s.updatePool p fun pool => { pool with numMonitors := pool.numMonitors - 1 } with
    monitors := s.monitors.erase p
    connectionPoolTimeout := true }

/-- What the user is asked for, or told, while `connection_pools` is not held. -/
inductive Callback where
  | keyring (user : Option Bytes)
  | user (user : Option Bytes)
  | save (user password : Option Bytes)
  deriving DecidableEq

inductive UserAnswer where
  | unhandled
  | aborted
  | given (user password : Bytes) (save : Bool)
  deriving DecidableEq

abbrev Callback.Resp : Callback → Type
  | .keyring _ => Option (Bytes × Bytes)
  | .user _ => UserAnswer
  | .save _ _ => Unit

/-- Where the lock is given up, the tables are handed out, and they come back as others have left them. -/
inductive MethodReq (M : Type) where
  | control (c : Nat) (request : ControlReq)
  | connect (c : Nat) (host : Bytes) (port : Nat)
  | clock
  | callback (c : Nat) (question : Callback) (tables : Tables M)
  | unlock (tables : Tables M)

abbrev MethodReq.Resp : MethodReq M → Type
  | .control _ request => request.Resp
  | .connect _ _ _ => Except Socket.Failure Bytes
  | .clock => Nat
  | .callback _ question _ => question.Resp × Tables M
  | .unlock _ => Tables M

abbrev Method (M : Type) := Action (MethodReq.Resp (M := M)) Stop (Tables M)

/-- The conversation on a connection. -/
def talk {α : Type} (c : Nat) (record : Connection M) (x : Conversation M α) :
    Prog (MethodReq.Resp (M := M)) Stop (α × Connection M) :=
  (x record).via (MethodReq.control c) fun _ answer => answer

/-- A conversation on a connection of the tables. -/
def onConnection {α : Type} (c : Nat) (x : Conversation M α) : Method M α := fun s =>
  match s.connections[c]? with
  | none => .stop .dangling
  | some entry => (talk c entry.record x).bind fun (a, record) =>
    .done (a, s.updateConnection c fun entry => { entry with record := record })

/-- The callback is run with the pool pinned and without the lock. -/
def unlocked (c : Nat) (question : Callback) : Method M question.Resp := do
  modify fun s => s.move c .asking 1
  let answer ← fun s => .ask (.callback c question s) .done
  modify fun s => s.move c .building (-1)
  return answer

def clock : Method M Nat := fun s => .ask .clock fun now => .done (now, s)

def readPool (p : Nat) : Method M Pool := do
  match (← get).pool p with
  | some pool => return pool
  | none =>
    modify fun s => { s with failed := true }
    return .new

/-- The lock is given up, and others may take it. -/
def unlock : Method M Unit := fun s => .ask (.unlock s) fun s => .done ((), s)

section Create

/-- The host and the port of the FTP proxy, where there is one. -/
abbrev Proxy := Option (Bytes × Nat)

def controlPort : Nat := 21

variable (proxy : Proxy)

/-- `try_connection`. -/
def tryConnection (p : Nat) (uri : Uri M) (c : Nat) : Method M VfsResult := do
  let port := match proxy with
    | some (_, port) => port
    | none => if uri.getToplevel.hostPort ≠ 0 then uri.getToplevel.hostPort.toNat else controlPort
  let savedIp := (← readPool p).ip
  match savedIp <|> proxy.elim uri.getToplevel.hostName (some ·.1) with
  | none => return .invalidHostName
  | some host =>
    match ← (fun s => .ask (.connect c host port) fun answer => .done (answer, s) :
        Method M (Except Socket.Failure Bytes)) with
    | .error failure => return failure.1
    | .ok ip =>
      modify fun s => s.updatePool p fun pool => { pool with ip := pool.ip <|> some ip }
      modify fun s => s.updateConnection c fun entry =>
        { entry with socket := true, record := { entry.record with offset := 0 } }
      onConnection c (getResponse .greeting)

/-- `try_login`. A connection on which the login fails is closed. -/
def tryLogin (p : Nat) (uri : Uri M) (c : Nat) (user password : Option Bytes) : Method M VfsResult := do
  let result ← if ((← get).connections[c]?).any (·.socket) then pure .ok else tryConnection proxy p uri c
  if result ≠ .ok then return result
  let result ← onConnection c
    (ftpLogin proxy.isSome (user.getD (ascii "(null)")) (password.getD (ascii "(null)")))
  if result ≠ .ok then modify fun s => s.updateConnection c fun entry => { entry with socket := false }
  return result

/-- A user name and a password, where there are any, and whether they are to be saved. -/
structure Login where
  user : Option Bytes
  password : Option Bytes
  save : Bool
  deriving DecidableEq

/-- The login with what the user has answered. -/
def tryAnswer (p : Nat) (uri : Uri M) (c : Nat) (answer : UserAnswer) (login : Login) :
    Method M (Step Login (Except VfsResult Login)) := do
  modify fun s => s.updateConnection c fun entry =>
    { entry with record := { entry.record with responseCode := -1 } }
  let result ← tryLogin proxy p uri c login.user login.password
  if result = .ok then return .finish (.ok login)
  if result ≠ .loginFailed ∨ answer = .unhandled then return .finish (.error result)
  return .again login

/-- The loop in which the user is asked until a login succeeds. -/
def askUser (p : Nat) (uri : Uri M) (c : Nat) (fuel : Nat) (first : Login) : Method M (Except VfsResult Login) :=
  Action.loop .outOfFuel (fun login => do
    let answer : UserAnswer ← unlocked c (.user login.user)
    match answer with
    | .aborted => return .finish (.error .cancelled)
    | answer =>
      let login : Login := match answer with
        | .given user password save => ⟨some user, some password, save⟩
        | _ => ⟨some (ascii "anonymous"), some (ascii "nobody@gnome.org"), login.save⟩
      tryAnswer proxy p uri c answer login) fuel first

/-- How `ftp_connection_create` logs in: with what the pool knows, with what the keyring or the user
gives, or with what is in the URI. -/
def logIn (p : Nat) (uri : Uri M) (c : Nat) (fuel : Nat) : Method M (Except VfsResult Login) := do
  let pool ← readPool p
  let name := uri.getToplevel.userName
  if pool.user.isSome ∧ pool.password.isSome then
    let result ← tryLogin proxy p uri c pool.user pool.password
    return if result = .ok then .ok ⟨none, none, false⟩ else .error result
  else if name = none ∨ (name ≠ some (ascii "anonymous") ∧ uri.getToplevel.password = none) then
    match ← unlocked c (.keyring name) with
    | some (user, password) =>
      let result ← tryLogin proxy p uri c (some user) (some password)
      if result = .ok then return .ok ⟨none, none, false⟩
      askUser proxy p uri c fuel ⟨name, none, false⟩
    | none => askUser proxy p uri c fuel ⟨name, none, false⟩
  else
    let login : Login := ⟨name, uri.getToplevel.password <|> some (ascii "nobody@gnome.org"), false⟩
    let result ← tryLogin proxy p uri c login.user login.password
    return if result = .ok then .ok login else .error result

/-- `toggle_winnt_into_unix_mode`. -/
def toggleWinntIntoUnixMode : Conversation M VfsResult := do
  let result ← doBasicCommand .setup (ascii "SITE DIRSTYLE")
  if (← get).responseMessage.any fun message => ascii "is on" <:+: message then
    doBasicCommand .setup (ascii "SITE DIRSTYLE")
  else return result

/-- The commands on a connection that has been made; `serverType` is what the pool knows of it. -/
def setUp (serverType : Option Bytes) : Conversation M (Option Bytes) := do
  let _ ← doBasicCommand .setup (ascii "TYPE I")
  let serverType ← match serverType with
    | some known => pure (some known)
    | none => do
      let _ ← doBasicCommand .setup (ascii "SYST")
      pure (← get).responseMessage
  if serverType.any fun name => name.take 10 = ascii "Windows_NT" then
    let _ ← toggleWinntIntoUnixMode
  modify fun conn => { conn with serverType := serverType }
  return serverType

/-- `ftp_connection_create` behind the login. -/
def setUpConnection (p c : Nat) (login : Login) : Method M (VfsResult × Option Nat) := do
  let pool ← readPool p
  if pool.user = none then
    modify fun s => s.updatePool p fun pool => { pool with user := login.user, password := login.password }
  let serverType ← onConnection c (setUp pool.serverType)
  modify fun s => s.updatePool p fun pool => { pool with serverType := serverType }
  modify fun s => s.move c .used 1
  return (.ok, some c)

/-- `ftp_connection_create`. -/
def ftpConnectionCreate (fuel : Nat) (p : Nat) (uri : Uri M) : Method M (VfsResult × Option Nat) := do
  let c := (← get).connections.length
  modify fun s => { s with connections := s.connections ++ [⟨p, .building, false, .new uri⟩] }
  -- `try_kerberos` makes the connection, and finds that it is not supported
  let result ← tryConnection proxy p uri c
  if result ≠ .ok then
    modify fun s => s.updateConnection c fun entry => { entry with place := .gone }
    return (result, none)
  match ← logIn proxy p uri c fuel with
  | .error result =>
    modify fun s => s.updateConnection c fun entry => { entry with place := .gone }
    return (result, none)
  | .ok login =>
    if login.save then
      let _ ← unlocked c (.save login.user login.password)
    setUpConnection p c login

/-- `ftp_connection_acquire`, with the lock held. -/
def ftpConnectionAcquire (fuel : Nat) (uri : Uri M) : Method M (VfsResult × Option Nat) := do
  let p ← modifyGet (ftpConnectionPoolLookup uri)
  let done ← match (← readPool p).spareConnections with
    | c :: rest => do
      modify fun s => (s.move c .used 0).updatePool p fun pool => { pool with spareConnections := rest }
      modify fun s => s.updateConnection c fun entry =>
        { entry with record := { entry.record with uri := uri, offset := 0 } }
      let result ← onConnection c (doBasicCommand .probe (ascii "PWD"))
      if result ≠ .ok then
        modify (ftpConnectionDestroy c)
        ftpConnectionCreate proxy fuel p uri
      else pure (result, some c)
    | [] => ftpConnectionCreate proxy fuel p uri
  let now ← clock
  modify fun s => s.updatePool p fun pool => { pool with lastUse := now }
  return done

end Create

end GnomeVfs.Ftp
