import GnomeVfs.XferRemove

/- Copying files, symbolic links and directory trees. A copying function returns its result
and what it leaves in `skip`. -/
namespace GnomeVfs.Xfer

open Interaction

variable {U : Type} (cfg : Config U)

/-- The part of `create_directory` behind a name conflict; `none` when the directory is skipped. -/
def resolveExisting (fuel : Nat) (dir : U) (skip : Bool) : XferM U (Option (VfsResult × Bool)) := do
  let (infoResult, info) ← ask (.getFileInfo dir {})
  if infoResult = .ok && info.type = .directory then return some (.ok, skip)
  else
    let o ← handleOverwrite cfg .fileExists
    if o.skip then return none
    else if o.replace then
      let removed ← removeFile cfg fuel dir o.skip
      return some removed
    else return some (.ok, o.skip)

/-- `create_directory` behind `mkdir` and the name conflict. -/
def openCreated (dir : U) (result : VfsResult) (skip : Bool) :
    XferM U (Step Bool (VfsResult × Bool × Option Handle)) := do
  if result = .ok then
    let (opened, handle) ← ask (.openDirectory dir {})
    return .finish (opened, skip, if opened = .ok then some handle else none)
  else
    let h ← handleError cfg result
    if h.skip then return .finish (.ok, true, none)
    else if h.retry then return .again h.skip
    else return .finish (h.result, h.skip, none)

def createDirectory (fuel : Nat) (dir : U) : XferM U (VfsResult × Bool × Option Handle) :=
  loop (fun skip => do
    let result ← ask (.makeDirectory dir)
    if result = .fileExists then
      if cfg.options.useUniqueNames then return .finish (result, skip, none)
      else
        match ← resolveExisting cfg fuel dir skip with
        | none => return .finish (.ok, true, none)
        | some (result, skip) => openCreated cfg dir result skip
    else openCreated cfg dir result skip) fuel false

/-- The loop around `gnome_vfs_read` in `copy_file_data`. -/
def readBlock (fuel : Nat) (source : Handle) (blockSize : Nat) (skip : Bool) :
    XferM U (VfsResult × Bool × Bytes) :=
  loop (fun skip => do
    let (result, data) ← ask (.read source blockSize)
    if result ≠ .ok && result ≠ .eof then
      let h ← handleError cfg result
      if h.retry then return .again h.skip else return .finish (h.result, h.skip, data.1)
    else return .finish (result, skip, data.1)) fuel skip

/-- The loop around `gnome_vfs_write` in `copy_file_data`. The last component is what is
left of the buffer. -/
def writeBlock (fuel : Nat) (target : Handle) (buffer : Bytes) (skip : Bool) :
    XferM U (VfsResult × Bool × Bytes) :=
  loop (fun (buffer, skip) => do
    let (result, written) ← ask (.write target buffer)
    let left := buffer.drop written
    if result ≠ .ok then
      let h ← handleError cfg result
      if (h.result = .ok && left ≠ []) || h.retry then return .again (left, h.skip)
      else return .finish (h.result, h.skip, left)
    else if left ≠ [] then return .again (left, skip)
    else return .finish (result, skip, left)) fuel (buffer, skip)

structure DataLoop where
  skip : Bool
  totalBytesRead : UInt64
  lastCacheDropPoint : UInt64

/-- One round of the loop in `copy_file_data`. -/
def copyBlock (fuel : Nat) (target source : Handle) (blockSize : Nat) (forgetCache : Bool)
    (v : DataLoop) : XferM U (Step DataLoop (VfsResult × Bool)) := do
  setProgress fun p => { p with status := .ok, vfsStatus := .ok, phase := .readSource }
  let (result, skip, data) ← readBlock cfg fuel source blockSize v.skip
  if result ≠ .ok || data = [] || skip then return .finish (result, skip)
  else
    let bytesRead := UInt64.ofNat data.length
    let total := v.totalBytesRead + bytesRead
    setProgress fun p => { p with phase := .writeTarget }
    let (result, skip, left) ← writeBlock cfg fuel target data skip
    let fresh := total - v.lastCacheDropPoint
    let drops := forgetCache && left = [] && fresh > dropCacheBatchSize
    doIf drops do
      tell (.forgetCache source v.lastCacheDropPoint fresh)
      tell (.forgetCache target v.lastCacheDropPoint fresh)
    setProgress fun p => { p with
      phase := .copying
      bytesCopied := p.bytesCopied + bytesRead
      totalBytesCopied := p.totalBytesCopied + bytesRead }
    let answer ← callProgressOften cfg (.dataBlock skip) .copying
    if answer = 0 then return .finish (.interrupted, skip)
    else if skip then return .finish (result, skip)
    else if result = .ok then
      return .again ⟨skip, total, if drops then total else v.lastCacheDropPoint⟩
    else return .finish (result, skip)

def copyFileData (fuel : Nat) (target source : Handle) (sourceBlockSize targetBlockSize : UInt32) :
    XferM U (VfsResult × Bool) := do
  let answer ← callProgressOften cfg .dataStart .copying
  if answer = 0 then return (.interrupted, false)
  else
    let blockSize := max sourceBlockSize targetBlockSize
    let s ← get
    let forgetCache : Bool := s.progress.bytesTotal ≥ dropCacheSizeLimit
    let (result, skip) ← loop (copyBlock cfg fuel target source blockSize.toNat forgetCache) fuel ⟨false, 0, 0⟩
    doIf (eofToOk result = .ok) do
      setProgress fun p => { p with totalBytesCopied := p.totalBytesCopied + defaultSizeOverhead }
      let _ ← callProgressOften cfg .dataEnd .copying
      return ()
    return (eofToOk result, skip)

/-- The retry loop of `xfer_open_source`; the handle is `NULL` after an error. -/
def openSourceLoop (fuel : Nat) (uri : U) : XferM U (VfsResult × Bool × Option Handle) :=
  loop (fun skip => do
    let (result, handle) ← ask (.openUri uri)
    if result ≠ .ok then
      let h ← handleError cfg result
      if h.retry then return .again h.skip else return .finish (h.result, h.skip, none)
    else return .finish (result, skip, some handle)) fuel false

def xferOpenSource (fuel : Nat) (uri : U) : XferM U (VfsResult × Bool × Option Handle) := do
  let _ ← callProgressOften cfg .openSource .openSource
  let (result, skip, handle) ← openSourceLoop cfg fuel uri
  let s ← get
  match handle with
  | none => return (result, skip, none)
  | some h =>
    if s.progress.fileSize = 0 then
      let (result, info) ← ask (.getFileInfoFromHandle h)
      doIf (result = .ok && info.hasSize) (setProgress fun p => { p with fileSize := info.size })
      return (result, skip, some h)
    else return (result, skip, some h)

def xferCreateTarget (fuel : Nat) (uri : U) : XferM U (VfsResult × Bool × Handle) := do
  let s ← get
  loop (fun (exclusive, skip) => do
    let (result, handle) ← ask (.createUri uri exclusive)
    if result = .fileExists then
      let o ← handleOverwrite cfg result
      let exclusive := if o.replace then false else exclusive
      if o.retry then return .again (exclusive, o.skip) else return .finish (o.result, o.skip, handle)
    else if result ≠ .ok then
      let h ← handleError cfg result
      if h.retry then return .again (exclusive, h.skip) else return .finish (h.result, h.skip, handle)
    else return .finish (result, skip, handle)) fuel (s.overwriteMode != .replace, false)

/-- One round of the loop in `copy_symlink`, with `tried_remove` and `skip`. -/
def createLink (source target : U) (linkName : Bytes) :
    Bool × Bool → XferM U (Step (Bool × Bool) (VfsResult × Bool)) := fun (triedRemove, skip) => do
  let result ← ask (.createSymbolicLink target linkName)
  if result = .fileExists then
    let s ← get
    if s.overwriteMode = .replace && !triedRemove then
      -- `retry` stays `FALSE` here, so that the loop ends with the name free
      tell (.unlink target)
      return .finish (result, skip)
    else
      let o ← handleOverwrite cfg result
      doIf o.replace (tell (.unlink target))
      if o.retry then return .again (triedRemove, o.skip) else return .finish (o.result, o.skip)
  else if result ≠ .ok then
    let h ← handleError cfg result
    if h.retry then return .again (triedRemove, h.skip) else return .finish (h.result, h.skip)
  else
    let answer ← callProgressWithUrisOften cfg .symlinkCreated source target .openTarget
    if answer = 0 then return .finish (.interrupted, skip) else return .finish (result, skip)

def copySymlink (fuel : Nat) (source target : U) (linkName : Bytes) : XferM U (VfsResult × Bool) := do
  let (result, skip) ← loop (createLink cfg source target linkName) fuel (false, false)
  return (if skip then .ok else result, skip)

/-- The block size that `copy_file` takes from a file info. -/
def blockSizeOf (info : FileInfo) : UInt32 :=
  if info.hasIoBlockSize && info.ioBlockSize > 0 then info.ioBlockSize else 8192

/-- The end of `copy_file` and of `copy_directory`; the results are ignored there. -/
def setAttributes (target : U) (info : FileInfo) : XferM U Unit := do
  doIf (!cfg.options.targetDefaultPerms && info.hasPermissions)
    (tell (.setFileInfo target info .ownerAndPermissions))
  tell (.setFileInfo target info .time)

/-- `copy_file` behind its last notification. -/
def closeFiles (info : FileInfo) (target : U) (sourceHandle targetHandle : Handle)
    (result : VfsResult) (skip : Bool) : XferM U (VfsResult × Bool) := do
  let closeResult ← ask (.close sourceHandle)
  if result = .ok && closeResult ≠ .ok then
    let h ← handleError cfg closeResult
    return (h.result, h.skip)
  else
    let closeResult ← ask (.close targetHandle)
    if result = .ok && closeResult ≠ .ok then
      let h ← handleError cfg closeResult
      return (h.result, h.skip)
    else
      doIf (result = .ok) (setAttributes cfg target info)
      return (if skip then .ok else result, skip)

/-- The copying of the data in `copy_file`, which a cancelling answer skips. -/
def copyContents (fuel : Nat) (info : FileInfo) (targetDirInfo : Option FileInfo) (source target : U)
    (sourceHandle targetHandle : Handle) : XferM U (VfsResult × Bool) := do
  let answer ← callProgressWithUrisOften cfg .targetCreated source target .openTarget
  if answer ≠ overwriteActionAbort then
    match targetDirInfo with
    | none => Action.halt .crash
    | some dirInfo =>
      copyFileData cfg fuel targetHandle sourceHandle (blockSizeOf info) (blockSizeOf dirInfo)
  else return (.ok, false)

/-- `copy_file` behind the copying of the data. -/
def finishFile (info : FileInfo) (target : U) (sourceHandle targetHandle : Handle)
    (result : VfsResult) (skip : Bool) : XferM U (VfsResult × Bool) := do
  if result = .ok then
    let answer ← callProgressOften cfg (.closeTarget skip) .closeTarget
    closeFiles cfg info target sourceHandle targetHandle (if answer = 0 then .interrupted else .ok) skip
  else closeFiles cfg info target sourceHandle targetHandle result skip

def copyFile (fuel : Nat) (info : FileInfo) (targetDirInfo : Option FileInfo) (source target : U) :
    XferM U (VfsResult × Bool) := do
  setProgress fun p => { p with phase := .openSource, bytesCopied := 0, fileSize := info.size }
  progressSetSourceTargetUris cfg source target
  match ← xferOpenSource cfg fuel source with
  | (_, true, _) => return (.ok, true)
  | (result, false, none) => return (result, false)
  | (result, false, some sourceHandle) =>
    if result ≠ .ok then return (result, false)
    else
      setProgress fun p => { p with phase := .openTarget }
      let (result, skip, targetHandle) ← xferCreateTarget cfg fuel target
      if skip then
        tell (.close sourceHandle)
        return (.ok, true)
      else if result ≠ .ok then
        tell (.close sourceHandle)
        return (result, false)
      else
        let (result, skip) ← copyContents cfg fuel info targetDirInfo source target sourceHandle targetHandle
        finishFile cfg info target sourceHandle targetHandle result skip

/-- Files created in a directory with the set-group-ID bit take its group. -/
def inheritGroup (info : FileInfo) (targetDirInfo : Option FileInfo) : FileInfo :=
  match targetDirInfo with
  | some dirInfo => if dirInfo.sgid then { info with gid := dirInfo.gid } else info
  | none => info

/-- The choice by file type in the loop of `copy_directory`. `skipChild` has no value before
the call, so that it is arbitrary where nothing sets it. -/
def copyChild (copyDirectory : FileInfo → U → U → Bool → XferM U (VfsResult × Bool)) (fuel : Nat)
    (info : FileInfo) (targetDirInfo : Option FileInfo) (source target : U) (skipChild : Bool) :
    XferM U (VfsResult × Bool) :=
  match info.type with
  | .regular => copyFile cfg fuel info targetDirInfo source target
  | .directory => copyDirectory info source target skipChild
  | .symbolicLink =>
    if cfg.options.followLinksRecursive then do
      let (result, linkInfo) ← ask (.getFileInfo source { followLinks := true })
      if result = .ok then copyFile cfg fuel linkInfo targetDirInfo source target
      else return (result, skipChild)
    else copySymlink cfg fuel source target info.symlinkName
  | _ => return (.ok, skipChild)

/-- One round of the loop in `copy_directory`. -/
def copyEntry (copyDirectory : FileInfo → U → U → Bool → XferM U (VfsResult × Bool)) (fuel : Nat)
    (targetDirInfo : Option FileInfo) (sourceDir targetDir : U) (handle : Handle) (skip : Bool) :
    XferM U (Step Bool (VfsResult × Bool)) := do
  let (result, info) ← ask (.readNext handle)
  if result ≠ .ok then return .finish (result, skip)
  else if isDots info.name then return .again skip
  else
    setProgress fun p => { p with fileIndex := p.fileIndex + 1 }
    let source := cfg.uris.appendFileName sourceDir info.name
    let target := cfg.uris.appendFileName targetDir info.name
    progressSetSourceTargetUris cfg source target
    let garbage ← ask .undefined
    let (result, skipChild) ←
      copyChild cfg copyDirectory fuel (inheritGroup info targetDirInfo) targetDirInfo source target garbage
    if result = .ok then return .again (skip || skipChild) else return .finish (result, skip || skipChild)

def closeIfOpen : Option Handle → XferM U Unit
  | some h => tell (.closeDirectory h)
  | none => pure ()

/-- `copy_directory` behind its loop. -/
def closeDirectories (info : FileInfo) (targetDirInfo : Option FileInfo) (target : U)
    (sourceHandle : Handle) (targetHandle : Option Handle) (result : VfsResult) (skip : Bool) :
    XferM U (VfsResult × Bool) := do
  closeIfOpen targetHandle
  tell (.closeDirectory sourceHandle)
  doIf (result = .ok) (setAttributes cfg target (inheritGroup info targetDirInfo))
  return (result, skip)

def copyDirectory : Nat → FileInfo → U → U → Bool → XferM U (VfsResult × Bool)
  | 0, _, _, _, _ => Action.halt .outOfFuel
  | fuel + 1, info, source, target, skip => do
    let (result, sourceHandle) ← ask (.openDirectory source {})
    if result ≠ .ok then return (result, skip)
    else
      setProgress fun p => { p with bytesCopied := 0 }
      let answer ← callProgressWithUrisOften cfg .directoryOpened source target .copying
      if answer = overwriteActionAbort then return (.interrupted, skip)
      else
        let (result, skip, targetHandle) ← createDirectory cfg fuel target
        if skip then
          tell (.closeDirectory sourceHandle)
          return (.ok, true)
        else if result ≠ .ok then
          tell (.closeDirectory sourceHandle)
          return (result, false)
        else
          let (infoResult, dirInfo) ← ask (.getFileInfo target {})
          let targetDirInfo := if infoResult = .ok then some dirInfo else none
          let answer ← callProgressWithUrisOften cfg (.directoryCreated infoResult) source target .openTarget
          let (result, skip) ← (
            if answer ≠ 0 then do
              setProgress fun p => { p with
                totalBytesCopied := p.totalBytesCopied + defaultSizeOverhead
                topLevelItem := false }
              loop (copyEntry cfg (copyDirectory fuel) fuel targetDirInfo source target sourceHandle) fuel false
            else pure (infoResult, false))
          closeDirectories cfg info targetDirInfo target sourceHandle targetHandle (eofToOk result) skip

/-- The choice by file type in `copy_items`; objects of the other types are ignored. -/
def copyOne (fuel : Nat) (info dirInfo : FileInfo) (source target : U) (result : VfsResult)
    (skip : Bool) : XferM U (VfsResult × Bool) :=
  match info.type with
  | .regular => copyFile cfg fuel info (some dirInfo) source target
  | .directory => copyDirectory cfg fuel info source target skip
  | .symbolicLink => copySymlink cfg fuel source target info.symlinkName
  | _ => return (result, skip)

structure CopyLoop (U : Type) where
  result : VfsResult
  count : Nat
  skip : Bool
  copied : List U

/-- One round of the loop over target names in `copy_items`. -/
def copyAttempt (fuel : Nat) (overwriteMode : OverwriteMode) (info dirInfo : FileInfo)
    (source targetItem targetDir : U) (v : CopyLoop U) :
    XferM U (Step (CopyLoop U) (VfsResult × List U)) := do
  let s ← get
  let target := cfg.uris.appendString targetDir s.progress.duplicateName
  setProgress fun p => { p with
    status := .ok, fileSize := info.size, bytesCopied := 0, topLevelItem := true }
  let answer ← callProgressWithUrisOften cfg (.copyItem info.type) source target .copying
  setOverwriteMode (if cfg.options.useUniqueNames then .abort else overwriteMode)
  let (result, skip) ←
    copyOne cfg fuel info dirInfo source target (if answer = 0 then .interrupted else v.result) v.skip
  let copied := if result = .ok && !skip then source :: v.copied else v.copied
  if result ≠ .fileExists || !cfg.options.useUniqueNames then return .finish (result, copied)
  else
    setProgress fun p => { p with
      duplicateName := cfg.uris.extractShortPathName targetItem
      duplicateCount := v.count
      status := .duplicate
      vfsStatus := result }
    let answer ← callProgressUri cfg .duplicate source target .copying
    setProgress fun p => { p with status := .ok }
    if answer = overwriteActionAbort || skip then return .finish (result, copied)
    else return .again ⟨result, v.count + 1, skip, copied⟩

/-- One round of the loop over the items in `copy_items`. -/
def copyItem (fuel : Nat) (overwriteMode : OverwriteMode) (item : U × U) (copied : List U) :
    XferM U (Step (VfsResult × List U) (VfsResult × List U)) := do
  setProgress fun p => { p with fileIndex := p.fileIndex + 1 }
  let targetDir := cfg.uris.getParent item.2
  let (result, info) ← ask (.getFileInfo item.1 {})
  setProgress fun p => { p with duplicateName := cfg.uris.extractShortPathName item.2 }
  if result ≠ .ok then return .finish (result, copied)
  else
    let (dirResult, dirInfo) ← ask (.getFileInfo targetDir {})
    let info := inheritGroup info (if dirResult = .ok then some dirInfo else none)
    let (result, copied) ←
      loop (copyAttempt cfg fuel overwriteMode info dirInfo item.1 item.2 targetDir) fuel ⟨.ok, 1, false, copied⟩
    if result ≠ .ok then return .finish (result, copied) else return .again (result, copied)

/-- `copy_items`, with the list of the copied sources. The two lists have the same length. -/
def copyItems (fuel : Nat) (sources targets : List U) (overwriteMode : OverwriteMode) :
    XferM U (VfsResult × List U) :=
  Action.each (fun item (_, copied) => copyItem cfg fuel overwriteMode item copied)
    (sources.zip targets) (.ok, [])

end GnomeVfs.Xfer
