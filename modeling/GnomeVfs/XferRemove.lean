import GnomeVfs.XferProgress

/- Walking directories (`gnome-vfs-directory.c`) and removing files and directory trees.
A function that passes `skip` on takes its value and returns the one it leaves. -/
namespace GnomeVfs.Xfer

open Interaction

variable {U : Type} (cfg : Config U)

def isDots (name : Bytes) : Bool := name = ascii "." || name = ascii ".."

/-- `if (result == GNOME_VFS_ERROR_EOF) result = GNOME_VFS_OK`. -/
def eofToOk (result : VfsResult) : VfsResult := if result = .eof then .ok else result

section Visit

structure VisitOptions where
  loopCheck : Bool := false
  ignoreRecurseError : Bool := false

/-- `lookup_ancestor`, where an ancestor is its inode and its device. -/
def lookupAncestor (ancestors : List (UInt64 × UInt64)) (valid : Bool) (inode device : UInt64) : Bool :=
  if !valid then ancestors.length ≥ vfsMaximumSymbolicLinkDepth
  else ancestors.any fun reference => reference.1 = inode && reference.2 = device

variable {D : Type} (infoOptions : InfoOptions) (visitOptions : VisitOptions)

/-- A `GnomeVFSDirectoryVisitFunc` with the data it works on. It returns whether to go on,
`*recurse`, and the data. -/
abbrev VisitFunc (U D : Type) := Bytes → FileInfo → Bool → D → XferM U (Bool × Bool × D)

variable (callback : VisitFunc U D)

def recursingWillLoop (ancestors : List (UInt64 × UInt64)) (info : FileInfo) : Bool :=
  info.type = .directory && visitOptions.loopCheck &&
    lookupAncestor ancestors (info.hasDevice && info.hasInode) info.inode info.device

/-- One round of the loop in `directory_visit_internal`. -/
def visitEntry (visit : U → Bytes → List (UInt64 × UInt64) → D → XferM U (VfsResult × D))
    (uri : U) (above : Bytes) (ancestors : List (UInt64 × UInt64)) (handle : Handle) (data : D) :
    XferM U (Step D (VfsResult × D)) := do
  let (result, info) ← ask (.readNext handle)
  if result ≠ .ok then return .finish (result, data)
  else if isDots info.name then return .again data
  else
    let relPath := above ++ info.name
    let (go, recurse, data) ← callback relPath info (recursingWillLoop visitOptions ancestors info) data
    if !go then return .finish (.interrupted, data)
    else if recurse && info.type = .directory then
      let ancestors := if info.isLocal then (info.inode, info.device) :: ancestors else ancestors
      let (result, data) ← visit (cfg.uris.appendFileName uri info.name) (relPath ++ [chrSlash]) ancestors data
      if result ≠ .ok && !visitOptions.ignoreRecurseError then return .finish (result, data)
      else return .again data
    else return .again data

/-- `directory_visit_internal` behind the test for the first call. -/
def visitDirectory : Nat → U → Bytes → List (UInt64 × UInt64) → D → XferM U (VfsResult × D)
  | 0, _, _, _, _ => Action.halt .outOfFuel
  | fuel + 1, uri, above, ancestors, data => do
    let (result, handle) ← ask (.openDirectory uri infoOptions)
    if result ≠ .ok then return (result, data)
    else
      let (result, data) ← loop
        (visitEntry cfg visitOptions callback (visitDirectory fuel) uri above ancestors handle) fuel data
      tell (.closeDirectory handle)
      return (eofToOk result, data)

/-- `gnome_vfs_directory_visit_uri`. -/
def directoryVisitUri (fuel : Nat) (uri : U) (data : D) : XferM U (VfsResult × D) := do
  let (result, info) ← ask (.getFileInfo uri infoOptions)
  if result ≠ .ok then return (result, data)
  else if info.type ≠ .directory then return (.notADirectory, data)
  else visitDirectory cfg infoOptions visitOptions callback fuel uri [] [(info.inode, info.device)] data

end Visit

/-- The loop that `remove_file` and `remove_directory` share: `call` until it succeeds or
the error handler has enough. -/
def removeOne (site : Site) (call : XferM U VfsResult) (fuel : Nat) (uri : U) (skip : Bool) :
    XferM U (VfsResult × Bool) := do
  setProgress fun p => { p with fileIndex := p.fileIndex + 1 }
  loop (fun skip => do
    let result ← call
    if result ≠ .ok then
      let h ← handleError cfg result
      if h.retry then return .again h.skip else return .finish (h.result, h.skip)
    else
      setProgress fun p => { p with totalBytesCopied := p.totalBytesCopied + defaultSizeOverhead }
      let answer ← callProgressWithUrisOften cfg site uri cfg.uris.null .deleteSource
      if answer = overwriteActionAbort then return .finish (.interrupted, skip)
      else return .finish (.ok, skip)) fuel skip

def removeFile (fuel : Nat) (uri : U) (skip : Bool) : XferM U (VfsResult × Bool) :=
  removeOne cfg (.removeFile cfg.errorMode) (ask (.unlink uri)) fuel uri skip

/-- The part of `remove_directory` that removes the emptied directory. -/
def removeEmptied (fuel : Nat) (uri : U) (skip : Bool) : XferM U (VfsResult × Bool) :=
  removeOne cfg .removeDirectory (ask (.removeDirectory uri)) fuel uri skip

/-- `PrependOneURIToList`. -/
def prependOneUriToList (base : U) : VisitFunc U (List U) := fun relPath _ willLoop uris =>
  let uris := cfg.uris.appendPath base relPath :: uris
  if willLoop then pure (false, false, uris) else pure (true, true, uris)

/-- What `non_recursive_empty_directory` does with one URI of its list. -/
def removeListed (fuel : Nat) (uri : U) (skip : Bool) : XferM U (VfsResult × Bool) := do
  let (result, info) ← ask (.getFileInfo uri {})
  progressSetSourceTargetUris cfg uri cfg.uris.null
  if result = .ok then
    if info.type = .directory then removeEmptied cfg fuel uri skip else removeFile cfg fuel uri skip
  else return (result, skip)

/-- One round of the loop in `non_recursive_empty_directory`, which has no way out. -/
def removeListedRound (fuel : Nat) (uri : U) (x : VfsResult × Bool) :
    XferM U (Step (VfsResult × Bool) (VfsResult × Bool)) := do
  let r ← removeListed cfg fuel uri x.2
  return .again r

def removeAllListed (fuel : Nat) : List U → VfsResult × Bool → XferM U (VfsResult × Bool) :=
  Action.each (removeListedRound cfg fuel)

def nonRecursiveEmptyDirectory (fuel : Nat) (uri : U) (skip : Bool) : XferM U (VfsResult × Bool) := do
  let (result, uris) ← directoryVisitUri cfg {} { loopCheck := true } (prependOneUriToList cfg uri) fuel uri []
  if result = .ok then removeAllListed cfg fuel uris (result, skip) else return (result, skip)

/-- `remove_directory`, where `empty` empties a directory and leaves `skip`. -/
def removeDirectoryWith (empty : U → XferM U (VfsResult × Bool)) (fuel : Nat) (uri : U)
    (recursive skip : Bool) : XferM U (VfsResult × Bool) := do
  let (result, skip) ← (
    if recursive then do
      let (result, skip) ← empty uri
      if result = .tooManyOpenFiles then nonRecursiveEmptyDirectory cfg fuel uri skip
      else pure (result, skip)
    else pure (.ok, skip))
  if eofToOk result = .ok then removeEmptied cfg fuel uri skip else return (eofToOk result, skip)

/-- One round of the loop in `empty_directory`. -/
def emptyEntry (empty : U → XferM U (VfsResult × Bool)) (fuel : Nat) (uri : U) (handle : Handle)
    (skip : Bool) : XferM U (Step Bool (VfsResult × Bool)) := do
  let (result, info) ← ask (.readNext handle)
  if result ≠ .ok then return .finish (result, skip)
  else if isDots info.name then return .again skip
  else
    let item := cfg.uris.appendFileName uri info.name
    progressSetSourceTargetUris cfg item cfg.uris.null
    let (result, skip) ← (
      if info.type = .directory then removeDirectoryWith cfg empty fuel item true skip
      else removeFile cfg fuel item skip)
    if result ≠ .ok then return .finish (result, skip) else return .again skip

/-- The first loop of `empty_directory`. -/
def openToEmpty (fuel : Nat) (uri : U) : XferM U (VfsResult × Bool × Handle) :=
  loop (fun skip => do
    let (result, handle) ← ask (.openDirectory uri {})
    if result ≠ .ok then
      let h ← handleError cfg result
      if h.retry then return .again h.skip else return .finish (h.result, h.skip, handle)
    else return .finish (result, skip, handle)) fuel false

def emptyDirectory : Nat → U → XferM U (VfsResult × Bool)
  | 0, _ => Action.halt .outOfFuel
  | fuel + 1, uri => do
    let (result, skip, handle) ← openToEmpty cfg fuel uri
    if result ≠ .ok || skip then return (result, skip)
    else
      let (result, skip) ← loop (emptyEntry cfg (emptyDirectory fuel) fuel uri handle) fuel skip
      tell (.closeDirectory handle)
      return (eofToOk result, skip)

def removeDirectory (fuel : Nat) (uri : U) (recursive skip : Bool) : XferM U (VfsResult × Bool) :=
  removeDirectoryWith cfg (emptyDirectory cfg fuel) fuel uri recursive skip

/-- One round of the loop in `gnome_vfs_xfer_delete_items_common`. -/
def deleteItem (fuel : Nat) (uri : U) : XferM U (Step VfsResult VfsResult) := do
  let (result, info) ← ask (.getFileInfo uri {})
  if result ≠ .ok then return .finish result
  else
    progressSetSourceTargetUris cfg uri cfg.uris.null
    let (result, _) ← (
      if info.type = .directory then removeDirectory cfg fuel uri true false
      else removeFile cfg fuel uri false)
    return .again result

/-- `gnome_vfs_xfer_delete_items_common`. -/
def deleteItemsCommon (fuel : Nat) (uris : List U) : XferM U VfsResult :=
  Action.each (fun uri _ => deleteItem cfg fuel uri) uris .ok

end GnomeVfs.Xfer
