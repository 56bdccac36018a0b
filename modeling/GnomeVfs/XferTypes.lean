import GnomeVfs.CString
import GnomeVfs.Result
import GnomeVfs.Interaction

/- The data of `gnome-vfs-xfer.c` and the requests it makes. A transfer is a program that
asks its file systems and its progress callback, so that each call may answer in any way. -/
namespace GnomeVfs.Xfer

open Interaction

inductive FileType where
  | unknown | regular | directory | fifo | socket | characterDevice | blockDevice | symbolicLink
  deriving DecidableEq, Repr

/-- The fields of `GnomeVFSFileInfo` that are read here. The `has` fields are bits of
`valid_fields`, `sgid`, `accessWritable` and `accessExecutable` bits of `permissions`. -/
structure FileInfo where
  name : Bytes
  type : FileType
  size : UInt64 := 0
  ioBlockSize : UInt32 := 0
  symlinkName : Bytes := []
  gid : UInt32 := 0
  inode : UInt64 := 0
  device : UInt64 := 0
  isLocal : Bool := false
  sgid : Bool := false
  accessWritable : Bool := false
  accessExecutable : Bool := false
  hasSize : Bool := false
  hasPermissions : Bool := false
  hasIoBlockSize : Bool := false
  hasAccess : Bool := false
  hasInode : Bool := false
  hasDevice : Bool := false
  deriving DecidableEq, Repr

structure InfoOptions where
  followLinks : Bool := false
  getAccessRights : Bool := false
  deriving DecidableEq, Repr

inductive SetMask where
  | ownerAndPermissions | time
  deriving DecidableEq, Repr

/-- `GnomeVFSXferOptions`, as far as the transfer itself reads them. -/
structure Options where
  followLinks : Bool := false
  recursive : Bool := false
  removeSource : Bool := false
  useUniqueNames : Bool := false
  linkItems : Bool := false
  followLinksRecursive : Bool := false
  targetDefaultPerms : Bool := false
  deriving DecidableEq, Repr

inductive ErrorMode where
  | abort | query
  deriving DecidableEq, Repr

inductive OverwriteMode where
  | abort | query | replace | skip
  deriving DecidableEq, Repr

/-- `GnomeVFSXferErrorAction` and `GnomeVFSXferOverwriteAction`. The callback answers a `gint`. -/
@[simp] abbrev errorActionAbort : Int := 0
@[simp] abbrev errorActionRetry : Int := 1
@[simp] abbrev errorActionSkip : Int := 2
@[simp] abbrev overwriteActionAbort : Int := 0
@[simp] abbrev overwriteActionReplace : Int := 1
@[simp] abbrev overwriteActionReplaceAll : Int := 2
@[simp] abbrev overwriteActionSkip : Int := 3
@[simp] abbrev overwriteActionSkipAll : Int := 4

inductive ProgressStatus where
  | ok | vfsError | overwrite | duplicate
  deriving DecidableEq, Repr

inductive Phase where
  | initial | checkingDestination | collecting | readyToGo | openSource | openTarget | copying
  | moving | readSource | writeTarget | closeSource | closeTarget | deleteSource | setAttributes
  | fileCompleted | cleanup | completed
  deriving DecidableEq, Repr

/-- `GnomeVFSXferProgressInfo`, with the values of `init_progress`. -/
structure ProgressInfo where
  status : ProgressStatus := .ok
  vfsStatus : VfsResult := .ok
  phase : Phase := .initial
  sourceName : Option Bytes := none
  targetName : Option Bytes := none
  fileIndex : UInt64 := 0
  filesTotal : UInt64 := 0
  bytesTotal : UInt64 := 0
  fileSize : UInt64 := 0
  bytesCopied : UInt64 := 0
  totalBytesCopied : UInt64 := 0
  duplicateName : Bytes := []
  duplicateCount : Nat := 0
  topLevelItem : Bool := false
  deriving DecidableEq, Repr

def defaultSizeOverhead : UInt64 := 1024
def dropCacheSizeLimit : UInt64 := 20 * 1024 * 1024
def dropCacheBatchSize : UInt64 := 512 * 1024
def updatePeriod : Int := 500 * 1000
def vfsMaximumSymbolicLinkDepth : Nat := 256

/-- The place in the source that a notification is sent from, with the local variables
that say what becomes of the answer there. -/
inductive Site where
  | phaseChange
  | countItem
  | handleError
  | handleOverwrite
  | removeFile (errorMode : ErrorMode)
  | removeDirectory
  | copyItem (type : FileType)
  | duplicate
  | openSource
  | targetCreated
  | dataStart
  | dataBlock (skip : Bool)
  | dataEnd
  | closeTarget (skip : Bool)
  | symlinkCreated
  | directoryOpened
  | directoryCreated (infoResult : VfsResult)
  | moved
  | linked
  | newDirectory
  deriving DecidableEq, Repr

/-- One call of the progress callbacks. The synchronous callback is always called, the
update callback when `deadline` has passed; `none` stands for at once. -/
structure Notice where
  site : Site
  info : ProgressInfo
  hasSync : Bool
  hasUpdate : Bool
  deadline : Option Int
  deriving DecidableEq, Repr

/-- What the callbacks return and leave in `duplicate_name`, and the time of the call. -/
structure Answer where
  now : Int
  sync : Int
  update : Int
  duplicateName : Bytes
  deriving DecidableEq, Repr

namespace Notice

def due (n : Notice) (a : Answer) : Bool :=
  match n.deadline with
  | none => true
  | some next => next ≤ a.now

/-- The answers that are given, in their order. -/
def answers (n : Notice) (a : Answer) : List Int :=
  (if n.hasSync then [a.sync] else []) ++ if n.hasUpdate && n.due a then [a.update] else []

/-- The answer that the code goes by: the last one. -/
def heard (n : Notice) (a : Answer) (unasked : Int) : Int := (n.answers a).getLastD unasked

end Notice

abbrev Handle := Nat

inductive Op (U : Type) where
  | notify (notice : Notice)
  | getFileInfo (uri : U) (options : InfoOptions)
  | getFileInfoFromHandle (handle : Handle)
  | unlink (uri : U)
  | removeDirectory (uri : U)
  | makeDirectory (uri : U)
  | openDirectory (uri : U) (options : InfoOptions)
  | readNext (directory : Handle)
  | closeDirectory (directory : Handle)
  | openUri (uri : U)
  | createUri (uri : U) (exclusive : Bool)
  | read (handle : Handle) (bytes : Nat)
  | write (handle : Handle) (buffer : Bytes)
  | forgetCache (handle : Handle) (offset size : UInt64)
  | close (handle : Handle)
  | createSymbolicLink (uri : U) (reference : Bytes)
  | setFileInfo (uri : U) (info : FileInfo) (mask : SetMask)
  | move (source target : U) (forceReplace : Bool)
  | checkSameFs (source target : U)
  | volumeFreeSpace (uri : U)
  | isInSubdir (uri directory : U)
  /-- The value of a `gboolean` that is read before it is set. -/
  | undefined

abbrev Op.Reply {U : Type} : Op U → Type
  | .notify _ => Answer
  | .getFileInfo _ _ => VfsResult × FileInfo
  | .getFileInfoFromHandle _ => VfsResult × FileInfo
  | .unlink _ => VfsResult
  | .removeDirectory _ => VfsResult
  | .makeDirectory _ => VfsResult
  | .openDirectory _ _ => VfsResult × Handle
  | .readNext _ => VfsResult × FileInfo
  | .closeDirectory _ => VfsResult
  | .openUri _ => VfsResult × Handle
  | .createUri _ _ => VfsResult × Handle
  | .read _ bytes => VfsResult × { data : Bytes // data.length ≤ bytes }
  | .write _ buffer => VfsResult × Fin (buffer.length + 1)
  | .forgetCache _ _ _ => VfsResult
  | .close _ => VfsResult
  | .createSymbolicLink _ _ => VfsResult
  | .setFileInfo _ _ _ => VfsResult
  | .move _ _ _ => VfsResult
  | .checkSameFs _ _ => VfsResult × Bool
  | .volumeFreeSpace _ => VfsResult × UInt64
  | .isInSubdir _ _ => Bool
  | .undefined => Bool

abbrev XferEvent (U : Type) := Event (Op.Reply (U := U))

abbrev Trace (U : Type) := List (XferEvent U)

/-- The functions on URI pointers that the transfer calls. -/
structure UriFns (U : Type) where
  null : U
  isNull : U → Bool
  toText : U → Bytes
  appendFileName : U → Bytes → U
  appendString : U → Bytes → U
  appendPath : U → Bytes → U
  getParent : U → U
  getPath : U → Bytes
  extractShortPathName : U → Bytes
  equal : U → U → Bool

/-- What stays fixed during a transfer. -/
structure Config (U : Type) where
  uris : UriFns U
  options : Options
  errorMode : ErrorMode
  hasSync : Bool
  hasUpdate : Bool

/-- The part of `GnomeVFSProgressCallbackState` that changes, and the variable that
`overwrite_mode` points at. -/
structure State where
  progress : ProgressInfo := {}
  nextUpdate : Int := 0
  nextTextUpdate : Int := 0
  overwriteMode : OverwriteMode
  deriving DecidableEq, Repr

/-- Why a run is given up: the fuel is used up, or a null pointer is read. -/
inductive Stop where
  | outOfFuel | crash
  deriving DecidableEq, Repr

abbrev XferM (U : Type) := Action (Op.Reply (U := U)) Stop State

variable {U : Type}

def ask (op : Op U) : XferM U op.Reply := Action.ask op

/-- A call whose result is ignored. -/
def tell (op : Op U) : XferM U Unit := do
  let _ ← ask op
  return ()

def doIf (c : Prop) [Decidable c] (x : XferM U Unit) : XferM U Unit := if c then x else pure ()

def setProgress (f : ProgressInfo → ProgressInfo) : XferM U Unit :=
  modify fun s => { s with progress := f s.progress }

def loop {X α : Type} (body : X → XferM U (Step X α)) : Nat → X → XferM U α :=
  Action.loop .outOfFuel body

/-- URIs as the texts of plain paths. -/
def pathUris : UriFns Bytes where
  null := []
  isNull u := u = []
  toText u := u
  appendFileName dir name := dir ++ chrSlash :: name
  appendString dir name := dir ++ chrSlash :: name
  appendPath dir path := dir ++ chrSlash :: path
  getParent u := (cutLast u chrSlash).getD []
  getPath u := u
  extractShortPathName u := (u.reverse.takeWhile (· ≠ chrSlash)).reverse
  equal u v := u = v

/-- The replies of a world in which every call succeeds: each object is an empty regular file,
each directory is empty, and the callback always says to go on. -/
def calmReply : (op : Op Bytes) → op.Reply
  | .notify n => ⟨0, 1, 1, n.info.duplicateName⟩
  | .getFileInfo u _ => (.ok, { name := u, type := .regular })
  | .getFileInfoFromHandle _ => (.ok, { name := [], type := .regular })
  | .unlink _ => .ok
  | .removeDirectory _ => .ok
  | .makeDirectory _ => .ok
  | .openDirectory _ _ => (.ok, 1)
  | .readNext _ => (.eof, { name := [], type := .unknown })
  | .closeDirectory _ => .ok
  | .openUri _ => (.ok, 2)
  | .createUri _ _ => (.ok, 3)
  | .read _ _ => (.eof, ⟨[], Nat.zero_le _⟩)
  | .write _ buffer => (.ok, Fin.last buffer.length)
  | .forgetCache _ _ _ => .ok
  | .close _ => .ok
  | .createSymbolicLink _ _ => .ok
  | .setFileInfo _ _ _ => .ok
  | .move _ _ _ => .ok
  | .checkSameFs _ _ => (.ok, true)
  | .volumeFreeSpace _ => (.notSupported, 0)
  | .isInSubdir _ _ => false
  | .undefined => false

/-- A transfer of paths with a synchronous callback that is not asked about errors. -/
def plainConfig (options : Options) : Config Bytes :=
  { uris := pathUris, options := options, errorMode := .abort, hasSync := true, hasUpdate := false }

end GnomeVfs.Xfer
