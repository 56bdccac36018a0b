import GnomeVfs.FtpPool
import GnomeVfs.UriPath

/- The operations of the FTP method: what each does on the connections that it acquires, and how it
gives them back. -/
namespace GnomeVfs.Ftp

open Interaction

variable {M α : Type}

/-- A conversation without the lock: others may take it before each request. -/
def outsideFrom (c : Nat) : Prog ControlReq.Resp Stop α → Tables M → Prog (MethodReq.Resp (M := M)) Stop (α × Tables M)
  | .done a, s => .done (a, s)
  | .stop reason, _ => .stop reason
  | .ask r next, s => .ask (.unlock s) fun s => .ask (.control c r) fun answer => outsideFrom c (next answer) s

def readRecord (c : Nat) : Method M (Connection M) := fun s =>
  match s.connections[c]? with
  | none => .stop .dangling
  | some entry => .done (entry.record, s)

def setRecord (c : Nat) (f : Connection M → Connection M) : Method M Unit :=
  modify fun s => s.updateConnection c fun entry => { entry with record := f entry.record }

/-- A conversation on a connection of one's own. -/
def outside (c : Nat) (x : Conversation M α) : Method M α := do
  let record ← readRecord c
  let (a, record) ← outsideFrom c (x record)
  setRecord c fun _ => record
  return a

section Connections

variable (proxy : Proxy) (fuel : Nat)

def acquire (uri : Uri M) : Method M (VfsResult × Option Nat) := do
  let acquired ← ftpConnectionAcquire proxy fuel uri
  unlock
  return acquired

def release (c : Nat) (errorRelease : Bool) : Method M Unit := do
  modify (ftpConnectionRelease c errorRelease)
  unlock

/-- What is done with a connection, and what is returned where there is none. -/
def withConnection (uri : Uri M) (failed : VfsResult → α) (f : Nat → Method M α) : Method M α := do
  let (result, conn) ← acquire proxy fuel uri
  if result ≠ .ok then return failed result
  match conn with
  | none => Action.halt .dangling
  | some c => f c

/-- `do_path_command_completely`. -/
def doPathCommandCompletely (command : Bytes) (uri : Uri M) (fivefifty : VfsResult) : Method M VfsResult :=
  withConnection proxy fuel uri id fun c => do
    setRecord c fun conn => { conn with fivefifty := fivefifty }
    let result ← outside c (doPathCommand .command command uri)
    release c (result ≠ .ok)
    return result

end Connections

/-- The key of a directory in `cached_dirlists`. -/
def dirlistKey (uri : Uri M) : Bytes := uri.element.text.getD [chrSlash]

/-- `DIRLIST_CACHE_TIMEOUT`, in seconds. -/
def dirlistCacheTimeout : Nat := 30

/-- A listing, and the type of the server that it comes from. -/
structure DirHandle where
  dirlist : Bytes
  serverType : Option Bytes
  deriving DecidableEq

/-- The listing in the cache, where there is one that is not too old. -/
def cachedDirlist (uri : Uri M) : Method M (Option DirHandle) := do
  let p ← modifyGet (ftpConnectionPoolLookup uri)
  let pool ← readPool p
  match pool.cachedDirlists.lookup (dirlistKey uri) with
  | none =>
    unlock
    return none
  | some cached =>
    let now ← clock
    unlock
    if cached.readTime ≤ now ∧ now ≤ cached.readTime + dirlistCacheTimeout then
      return some ⟨cached.dirlist, pool.serverType⟩
    else return none

def Pool.removeDirlist (pool : Pool) (key : Bytes) : Pool :=
  { pool with cachedDirlists := pool.cachedDirlists.filter fun cached => cached.1 ≠ key }

def cacheDirlist (uri : Uri M) (dirlist : Bytes) : Method M Unit := do
  let p ← modifyGet (ftpConnectionPoolLookup uri)
  let now ← clock
  modify fun s => s.updatePool p fun pool =>
    { pool.removeDirlist (dirlistKey uri) with
      cachedDirlists := (dirlistKey uri, ⟨dirlist, now⟩) :: (pool.removeDirlist (dirlistKey uri)).cachedDirlists }
  unlock

/-- `invalidate_dirlist_cache`. -/
def invalidateDirlistCache (uri : Uri M) : Method M Unit := do
  let p ← modifyGet (ftpConnectionPoolLookup uri)
  modify fun s => s.updatePool p fun pool => pool.removeDirlist (dirlistKey uri)
  unlock

/-- `invalidate_parent_dirlist_cache`, which does not ask whether there is a parent. -/
def invalidateParentDirlistCache (uri : Uri M) : Method M Unit :=
  match uriGetParent uri with
  | none => Action.halt .dangling
  | some parent => invalidateDirlistCache parent

section Operations

variable (proxy : Proxy) (fuel : Nat)

/-- `GNOME_VFS_OPEN_READ` and `GNOME_VFS_OPEN_WRITE`. -/
structure OpenMode where
  read : Bool
  write : Bool
  deriving DecidableEq

/-- `do_open`: the connection is the handle. -/
def doOpen (uri : Uri M) (mode : OpenMode) : Method M (VfsResult × Option Nat) := do
  if mode.read && mode.write then return (.invalidOpenMode, none)
  if !mode.read && !mode.write then return (.invalidOpenMode, none)
  withConnection proxy fuel uri (·, none) fun c => do
    let result ← if mode.read then do
        setRecord c fun conn => { conn with operation := .read }
        outside c (doPathTransferCommand .transfer (ascii "RETR") uri)
      else do
        invalidateParentDirlistCache uri
        setRecord c fun conn => { conn with operation := .write, fivefifty := .accessDenied }
        let result ← outside c (doPathTransferCommand .transfer (ascii "STOR") uri)
        setRecord c fun conn => { conn with fivefifty := .notFound }
        pure result
    if result = .ok then return (result, some c)
    release c true
    return (result, none)

/-- `do_create`. -/
def doCreate (uri : Uri M) (mode : OpenMode) (exclusive : Bool) (perm : Nat) :
    Method M (VfsResult × Option Nat) := do
  if mode.read && mode.write then return (.invalidOpenMode, none)
  if !mode.read && !mode.write then return (.invalidOpenMode, none)
  withConnection proxy fuel uri (·, none) fun c => do
    -- the file is not to exist
    let result ← if exclusive then do
        setRecord c fun conn => { conn with operation := .read }
        outside c (doPathTransferCommand .create (ascii "RETR") uri)
      else pure .notFound
    if result ≠ .notFound then
      release c true
      return (if result = .ok then .fileExists else result, none)
    let (result, handle) ← doOpen proxy fuel uri mode
    if result ≠ .ok then
      release c true
      return (result, none)
    let _ ← outside c (doPathCommand .create (ascii "SITE CHMOD " ++ octal perm) uri)
    release c true
    return (result, handle)

/-- `do_close`. -/
def doClose (c : Nat) : Method M VfsResult := do
  let result ← outside c (endTransfer .close)
  release c (result ≠ .ok)
  return result

inductive SeekPosition where
  | start | current | end
  deriving DecidableEq

/-- `do_seek`. The transfer is ended, whatever comes of it, and begun again elsewhere. -/
def doSeek (c : Nat) (whence : SeekPosition) (offset : Int) : Method M VfsResult := do
  let conn ← readRecord c
  match whence with
  | .end => return .notSupported
  | _ =>
    let realOffset := if whence = .start then offset else conn.offset + offset
    let _ ← outside c (endTransfer .seek)
    let orig ← readRecord c
    setRecord c fun conn => { conn with offset := realOffset }
    let again (command : Bytes) : Method M VfsResult := do
      let result ← outside c (doPathTransferCommand .seek command orig.uri)
      if result ≠ .ok then setRecord c fun conn => { conn with offset := orig.offset }
      return result
    match orig.operation with
    | .read => again (ascii "RETR")
    | .write => again (ascii "STOR")
    | _ => return .generic

/-- The candidates are tried while the server does not know them. The command that is remembered
is the one behind the last that was tried. -/
def tryCandidates : List Bytes → Conversation M (VfsResult × Option Bytes)
  | [] => return (.generic, none)
  | [command] => do
    let result ← doTransferCommand .candidate command
    return (result, none)
  | command :: next :: rest => do
    let result ← doTransferCommand .candidate command
    if result = .badParameters then tryCandidates (next :: rest) else return (result, some next)

/-- `get_list_command`. -/
def getListCommand : Conversation M VfsResult := do
  let conn ← get
  let (result, listCmd) ← tryCandidates
    (if conn.serverType.any fun name => ascii "MACOS" <:+: name then [ascii "LIST -a"]
    else [ascii "LIST -aL", ascii "LIST -a", ascii "LIST -L"])
  if result = .ok then
    modify fun conn => { conn with listCmd := listCmd }
    return result
  else
    let result ← doTransferCommand .transfer (ascii "LIST")
    modify fun conn => { conn with listCmd := some (ascii "LIST") }
    return result

/-- A buffer is appended as a string. -/
def readListingPart (dirlist : Bytes) : Conversation M (Step Bytes Bytes) := do
  let (result, bytes) ← ask .dataRead
  if result = .ok ∧ bytes ≠ [] then return .again (dirlist ++ bytes.takeWhile (· ≠ 0))
  else return .finish dirlist

/-- What the data connection gives, up to its end. -/
def readListing (fuel : Nat) : Conversation M Bytes := Action.loop .outOfFuel readListingPart fuel []

/-- `do_open_directory`. -/
def doOpenDirectory (uri : Uri M) : Method M (VfsResult × Option DirHandle) := do
  match ← cachedDirlist uri with
  | some handle => return (.ok, some handle)
  | none =>
    withConnection proxy fuel uri (·, none) fun c => do
      setRecord c fun conn => { conn with fivefifty := .notADirectory }
      let result ← outside c (doPathCommand .command (ascii "CWD") uri)
      if result ≠ .ok then
        release c true
        return (result, none)
      let conn ← readRecord c
      let result ← outside c (match conn.listCmd with
        | some command => doTransferCommand .transfer command
        | none => getListCommand)
      if result ≠ .ok then
        release c true
        return (result, none)
      let dirlist ← outside c (readListing fuel)
      let result ← outside c (endTransfer .listing)
      let conn ← readRecord c
      release c false
      if result ≠ .ok then return (result, none)
      cacheDirlist uri dirlist
      return (result, some ⟨dirlist, conn.serverType⟩)

/-- Whether `do_read_directory` comes to a line with this name in the listing of such a server. -/
abbrev Lists := Option Bytes → Bytes → Bytes → Bool

variable (lists : Lists)

/-- `do_get_file_info` of the root directory: is the host there? -/
def getRootInfo (uri : Uri M) : Method M VfsResult := do
  let p ← modifyGet (ftpConnectionPoolLookup uri)
  let pool ← readPool p
  unlock
  if pool.serverType.isSome then return .ok
  withConnection proxy fuel uri id fun c => do
    release c false
    return .ok

/-- Maybe it is a directory that is not listed. -/
def getHiddenInfo (uri : Uri M) : Method M VfsResult :=
  withConnection proxy fuel uri (fun _ => .notFound) fun c => do
    let result ← outside c (doPathCommand .hidden (ascii "CWD") uri)
    release c false
    return if result = .ok then .ok else .notFound

/-- `do_get_file_info`. -/
def doGetFileInfo (uri : Uri M) : Method M VfsResult := do
  match uriGetParent uri with
  | none => getRootInfo proxy fuel uri
  | some parent =>
    match uriExtractShortName uri with
    | none => return .notSupported
    | some name =>
      let (result, handle) ← doOpenDirectory proxy fuel parent
      match handle with
      | none => return result
      | some handle =>
        if lists handle.serverType handle.dirlist name then return .ok
        getHiddenInfo proxy fuel uri

/-- `do_make_directory`. -/
def doMakeDirectory (uri : Uri M) (perm : Nat) : Method M VfsResult := do
  let result ← doPathCommandCompletely proxy fuel (ascii "CWD") uri .notFound
  if result = .ok then return .fileExists
  let result ← doPathCommandCompletely proxy fuel (ascii "MKD") uri .accessDenied
  if result = .ok then
    invalidateParentDirlistCache uri
    let _ ← doPathCommandCompletely proxy fuel (ascii "SITE CHMOD " ++ octal perm) uri .accessDenied
    return result
  if result = .cancelled then return result
  let info ← doGetFileInfo proxy fuel lists uri
  return if info = .ok then .fileExists else result

/-- `do_remove_directory`. -/
def doRemoveDirectory (uri : Uri M) : Method M VfsResult := do
  invalidateParentDirlistCache uri
  doPathCommandCompletely proxy fuel (ascii "RMD") uri .accessDenied

/-- `do_unlink`. -/
def doUnlink (uri : Uri M) : Method M VfsResult := do
  invalidateParentDirlistCache uri
  doPathCommandCompletely proxy fuel (ascii "DELE") uri .accessDenied

/-- What `do_move` does on one server. -/
def renameOn (oldUri newUri : Uri M) : Method M VfsResult :=
  withConnection proxy fuel oldUri id fun c => do
    let result ← outside c (doPathCommand .command (ascii "RNFR") oldUri)
    let result ← if result = .ok then do
        setRecord c fun conn => { conn with fivefifty := .accessDenied }
        let result ← outside c (doPathCommand .command (ascii "RNTO") newUri)
        setRecord c fun conn => { conn with fivefifty := .notFound }
        pure result
      else pure result
    release c (result ≠ .ok)
    invalidateParentDirlistCache oldUri
    invalidateParentDirlistCache newUri
    return result

/-- `do_move`. -/
def doMove (oldUri newUri : Uri M) (forceReplace : Bool) : Method M VfsResult := do
  let info ← if forceReplace then pure .notFound else doGetFileInfo proxy fuel lists newUri
  if info = .ok then return .fileExists
  if Key.of oldUri = Key.of newUri then renameOn proxy fuel oldUri newUri else return .notSameFileSystem

end Operations

end GnomeVfs.Ftp
