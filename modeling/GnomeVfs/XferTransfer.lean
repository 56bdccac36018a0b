import GnomeVfs.XferCopy

/- Moving, linking and making directories, the preflight count and the name conflicts, and
`gnome_vfs_xfer_uri_internal` over all of them. -/
namespace GnomeVfs.Xfer

open Interaction

variable {U : Type} (cfg : Config U)

/-- Adds an item to the totals. -/
def ProgressInfo.count (p : ProgressInfo) (info : FileInfo) : ProgressInfo :=
  { p with
    filesTotal := p.filesTotal + 1
    bytesTotal := p.bytesTotal +
      match info.type with
      | .regular => info.size + defaultSizeOverhead
      | .directory => defaultSizeOverhead
      | _ => 0 }

def countEachFileSizeOne : VisitFunc U Unit := fun relPath info willLoop _ => do
  let s ← get
  let answer ← callProgressOften cfg .countItem s.progress.phase
  if answer = 0 then return (false, false, ())
  else
    progressSetSourceTarget (some relPath) none
    setProgress fun p => p.count info
    if willLoop then return (false, false, ()) else return (true, true, ())

/-- `gnome_vfs_visit_list`. -/
def visitList {D : Type} (infoOptions : InfoOptions) (visitOptions : VisitOptions) (callback : VisitFunc U D)
    (fuel : Nat) (recursive : Bool) (uris : List U) (data : D) : XferM U (VfsResult × D) :=
  Action.each (fun uri (_, data) => do
    let (result, info) ← ask (.getFileInfo uri infoOptions)
    if result ≠ .ok then return .finish (result, data)
    else
      let (go, _, data) ← callback (cfg.uris.getPath uri) info false data
      if !go then return .finish (.interrupted, data)
      else if recursive && info.type = .directory then
        let (result, data) ← directoryVisitUri cfg infoOptions visitOptions callback fuel uri data
        if result ≠ .ok then return .finish (result, data) else return .again (result, data)
      else return .again (result, data)) uris (.ok, data)

def listAddItemsAndSize (fuel : Nat) (uris : List U) (recurse : Bool) : XferM U VfsResult := do
  let (result, _) ← visitList cfg { followLinks := cfg.options.followLinks } { loopCheck := true }
    (countEachFileSizeOne cfg) fuel recurse uris ()
  return result

def countItemsAndSize (fuel : Nat) (uris : List U) (move link : Bool) : XferM U VfsResult := do
  setProgress fun p => { p with filesTotal := 0, bytesTotal := 0 }
  listAddItemsAndSize cfg fuel uris (!link && !move && cfg.options.recursive)

def moveSourceIsInTarget (fuel : Nat) (source target : U) : XferM U Bool :=
  loop (fun parent => do
    if cfg.uris.isNull parent then return .finish false
    else
      let inside ← ask (.isInSubdir parent target)
      if inside then return .finish true else return .again (cfg.uris.getParent parent)) fuel source

/-- `handle_merged_name_conflict_visit`; the data is `params->result`. -/
def handleMergedNameConflictVisit (fuel : Nat) (source target : U) : VisitFunc U VfsResult :=
  fun relPath _ willLoop _ => do
    let targetUri := cfg.uris.appendPath target relPath
    let (found, targetInfo) ← ask (.getFileInfo targetUri {})
    let result ← (
      if found = .ok then do
        let sourceUri := cfg.uris.appendPath source relPath
        let (known, sourceInfo) ← ask (.getFileInfo sourceUri {})
        if known = .ok && (targetInfo.type ≠ .directory || sourceInfo.type ≠ .directory) then
          if targetInfo.type = .directory then
            let inside ← moveSourceIsInTarget cfg fuel sourceUri targetUri
            if inside then pure .directoryNotEmpty
            else
              let (result, _) ← removeDirectory cfg fuel targetUri true false
              pure result
          else
            let (result, _) ← removeFile cfg fuel targetUri false
            pure result
        else pure .ok
      else pure .ok)
    return (result = .ok, !willLoop, result)

def handleMergedDirectoryNameConflicts (fuel : Nat) (source target : U) : XferM U VfsResult := do
  let (_, result) ← directoryVisitUri cfg {} { loopCheck := true }
    (handleMergedNameConflictVisit cfg fuel source target) fuel source .ok
  return result

/-- The two lists during `handle_name_conflicts`: what is kept, what is still to be looked
at, and what has been moved to the lists of merged directories. -/
structure Conflicts (U : Type) where
  result : VfsResult
  keptSources : List U
  keptTargets : List U
  restSources : List U
  restTargets : List U
  mergeSources : List U
  mergeTargets : List U

/-- Removes what is in the way of `source` at `uri`. Returns the result, `skip` and `must_copy`. -/
def clearTarget (fuel : Nat) (move link : Bool) (source uri : U) (targetInfo : FileInfo)
    (result : VfsResult) (skip : Bool) : XferM U (VfsResult × Bool × Bool) := do
  progressSetSourceTargetUris cfg uri cfg.uris.null
  if targetInfo.type = .directory then
    let inside ← moveSourceIsInTarget cfg fuel source uri
    if inside then return (.directoryNotEmpty, skip, false)
    else
      let merges ← (
        if link then pure false
        else do
          let (known, sourceInfo) ← ask (.getFileInfo source {})
          pure (known = .ok && sourceInfo.type = .directory))
      if merges then
        if move || cfg.options.recursive then
          let result ← handleMergedDirectoryNameConflicts cfg fuel source uri
          return (result, skip, true)
        else return (result, skip, true)
      else
        let (result, skip) ← removeDirectory cfg fuel uri true skip
        return (result, skip, false)
  else
    let (result, skip) ← removeFile cfg fuel uri skip
    return (result, skip, false)

/-- The conflict of one pair of URIs. Returns the result, `skip` and `must_copy`. -/
def settleConflict (fuel : Nat) (move link : Bool) (source uri : U) (result : VfsResult) :
    XferM U (VfsResult × Bool × Bool) := do
  if cfg.options.removeSource && cfg.uris.equal source uri then return (result, false, false)
  else
    let (found, targetInfo) ← ask (.getFileInfo uri {})
    if found ≠ .ok then return (result, false, false)
    else
      progressSetSourceTargetUris cfg source uri
      if cfg.uris.equal uri source then return (result, true, false)
      else
        let o ← handleOverwrite cfg result
        if o.retry then clearTarget cfg fuel move link source uri targetInfo o.result o.skip
        else return (o.result, o.skip, false)

/-- The first loop of `handle_name_conflicts` counts the conflicts up to two. -/
def countConflicts (targets : List U) : XferM U Nat :=
  Action.each (fun target count => do
    let (found, _) ← ask (.getFileInfo target {})
    if found = .ok then
      if count + 1 > 1 then return .finish (count + 1) else return .again (count + 1)
    else return .again count) targets 0

def handleNameConflicts (fuel : Nat) (sources targets : List U) (move link : Bool) :
    XferM U (Conflicts U) := do
  let count ← countConflicts targets
  if count = 0 then return ⟨.ok, [], [], sources, targets, [], []⟩
  else
    setProgress fun p => { p with duplicateCount := count }
    Action.each (fun (source, uri) v => do
      let (result, skip, mustCopy) ← settleConflict cfg fuel move link source uri v.result
      let v := { v with result := result }
      if result ≠ .ok then return .finish v
      else
        let v := { v with restSources := v.restSources.tail, restTargets := v.restTargets.tail }
        if skip then return .again v
        else if move && mustCopy then
          return .again { v with
            mergeSources := source :: v.mergeSources, mergeTargets := uri :: v.mergeTargets }
        else return .again { v with
          keptSources := v.keptSources ++ [source], keptTargets := v.keptTargets ++ [uri] })
      (sources.zip targets) ⟨.ok, [], [], sources, targets, [], []⟩

/-- One round of the loop over target names in `move_items`, with `conflict_count` and `skip`. -/
def moveAttempt (source targetItem targetDir : U) :
    Nat × Bool → XferM U (Step (Nat × Bool) (VfsResult × Bool)) := fun (conflictCount, skip) => do
  let s ← get
  let target := cfg.uris.appendString targetDir s.progress.duplicateName
  setProgress fun p => { p with fileSize := 0, bytesCopied := 0 }
  progressSetSourceTargetUris cfg source target
  setProgress fun p => { p with topLevelItem := true }
  let result ← ask (.move source target (!cfg.options.useUniqueNames))
  if result = .fileExists then
    setProgress fun p => { p with
      duplicateName := cfg.uris.extractShortPathName targetItem
      duplicateCount := conflictCount
      status := .duplicate
      vfsStatus := result }
    let answer ← callProgressUri cfg .duplicate source target .copying
    setProgress fun p => { p with status := .ok }
    if answer = overwriteActionAbort then return .finish (result, skip)
    else return .again (conflictCount + 1, skip)
  else
    let h ← (if result ≠ .ok then handleError cfg result else pure ⟨false, .ok, skip⟩)
    if h.result = .ok && !h.skip then
      let answer ← callProgressWithUrisOften cfg .moved source target .moving
      if answer = 0 then return .finish (.interrupted, h.skip)
      else return .finish (h.result, h.skip)
    else if h.retry then return .again (conflictCount, h.skip)
    else return .finish (h.result, h.skip)

def moveItems (fuel : Nat) (sources targets : List U) : XferM U VfsResult :=
  Action.each (fun (source, targetItem) _ => do
    setProgress fun p => { p with
      fileIndex := p.fileIndex + 1, duplicateName := cfg.uris.extractShortPathName targetItem }
    let (result, skip) ←
      loop (moveAttempt cfg source targetItem (cfg.uris.getParent targetItem)) fuel (1, false)
    if result ≠ .ok && !skip then return .finish result else return .again result)
    (sources.zip targets) .ok

/-- One round of the loop over target names in `link_items`, with `conflict_count` and `skip`.
Unlike `move_items` it notifies after a skipped error, too. -/
def linkAttempt (source targetItem targetDir : U) :
    Nat × Bool → XferM U (Step (Nat × Bool) (VfsResult × Bool)) := fun (conflictCount, skip) => do
  let s ← get
  let target := cfg.uris.appendString targetDir s.progress.duplicateName
  setProgress fun p => { p with fileSize := 0, bytesCopied := 0, topLevelItem := true }
  progressSetSourceTargetUris cfg source target
  let result ← ask (.createSymbolicLink target (cfg.uris.toText source))
  if result = .fileExists then
    setProgress fun p => { p with
      duplicateName := cfg.uris.extractShortPathName targetItem
      duplicateCount := conflictCount
      status := .duplicate
      vfsStatus := result }
    let answer ← callProgressUri cfg .duplicate source target .copying
    setProgress fun p => { p with status := .ok }
    if answer = overwriteActionAbort then return .finish (result, skip)
    else return .again (conflictCount + 1, skip)
  else
    let h ← (if result ≠ .ok then handleError cfg result else pure ⟨false, .ok, skip⟩)
    if h.result = .ok then
      let answer ← callProgressWithUrisOften cfg .linked source target .openTarget
      if answer = 0 then return .finish (.interrupted, h.skip)
      else return .finish (h.result, h.skip)
    else if h.retry then return .again (conflictCount, h.skip)
    else return .finish (h.result, h.skip)

def linkItems (fuel : Nat) (sources targets : List U) : XferM U VfsResult :=
  Action.each (fun (source, targetItem) _ => do
    setProgress fun p => { p with
      fileIndex := p.fileIndex + 1, duplicateName := cfg.uris.extractShortPathName targetItem }
    let (result, skip) ←
      loop (linkAttempt cfg source targetItem (cfg.uris.getParent targetItem)) fuel (1, false)
    if result ≠ .ok && !skip then return .finish result else return .again result)
    (sources.zip targets) .ok

/-- One round of the loop in `gnome_vfs_new_directory_with_unique_name`. It ends with the
result, the URI and the handle. -/
def newDirectoryAttempt (fuel : Nat) (targetDir : U) (name : Bytes) (conflictCount : Nat) :
    XferM U (Step Nat (VfsResult × U × Option Handle)) := do
  let s ← get
  let target := cfg.uris.appendString targetDir s.progress.duplicateName
  let (result, _, handle) ←
    createDirectory { cfg with options := { useUniqueNames := true } } fuel target
  if result ≠ .fileExists && result ≠ .nameTooLong then return .finish (result, target, handle)
  else
    setProgress fun p => { p with
      duplicateName := name
      duplicateCount := conflictCount
      status := .duplicate
      vfsStatus := result }
    let answer ← callProgressUri cfg .duplicate cfg.uris.null target .copying
    setProgress fun p => { p with status := .ok }
    if answer = overwriteActionAbort then return .finish (result, target, handle)
    else return .again (conflictCount + 1)

/-- `gnome_vfs_new_directory_with_unique_name`. -/
def newDirectoryWithUniqueName (fuel : Nat) (targetDir : U) (name : Bytes) : XferM U VfsResult := do
  setProgress fun p => { p with topLevelItem := true, duplicateName := name }
  let (result, target, handle) ← loop (newDirectoryAttempt cfg fuel targetDir name) fuel 1
  setProgress fun p => { p with vfsStatus := result }
  let _ ← callProgressUri cfg .newDirectory cfg.uris.null target .openTarget
  closeIfOpen handle
  return result

/-- `gnome_vfs_destination_is_writable`. -/
def destinationIsWritable (uri : U) : XferM U VfsResult := do
  let (result, info) ← ask (.getFileInfo uri { getAccessRights := true })
  if result ≠ .ok then return result
  else if info.hasAccess && !(info.accessWritable && info.accessExecutable) then return .accessDenied
  else return .ok

/-- What `gnome_vfs_xfer_uri_internal` has when it starts the transfer. -/
structure Prepared (U : Type) where
  move : Bool
  link : Bool
  sources : List U
  targets : List U
  mergeSources : List U
  mergeTargets : List U

/-- The parent of the first target; the callers pass a list that is not empty. -/
def firstTargetDir : List U → XferM U U
  | [] => Action.halt .crash
  | target :: _ => pure (cfg.uris.getParent target)

/-- The loop over `gnome_vfs_check_same_fs_uris`. -/
def sameFileSystem (targetDir : U) (sources : List U) (move : Bool) : XferM U (VfsResult × Bool) :=
  Action.each (fun source (_, move) => do
    let (result, sameFs) ← ask (.checkSameFs source targetDir)
    if result ≠ .ok then return .finish (result, move)
    else return .again (result, move && sameFs)) sources (.ok, move)

/-- Anything but an interruption is ignored. -/
def ignoreErrors (result : VfsResult) : VfsResult := if result = .interrupted then .interrupted else .ok

/-- The recount after some moves have become copies. -/
def recountMerged (fuel : Nat) (mergeSources mergeTargets : List U) : XferM U VfsResult := do
  let result ← listAddItemsAndSize cfg fuel mergeSources false
  setProgress fun p => { p with bytesTotal := -p.bytesTotal, filesTotal := -p.filesTotal }
  if ignoreErrors result ≠ .ok then return .interrupted
  else
    let result ← listAddItemsAndSize cfg fuel mergeSources true
    if ignoreErrors result ≠ .ok then return .interrupted
    else
      let targetDir ← firstTargetDir cfg mergeTargets
      let (result, freeBytes) ← ask (.volumeFreeSpace targetDir)
      let s ← get
      if result = .ok && s.progress.bytesTotal > freeBytes then
        progressSetSourceTargetUris cfg cfg.uris.null targetDir
        return .noSpace
      else return .ok

/-- The name conflicts with the totals saved around them. -/
def settleConflicts (fuel : Nat) (sources targets : List U) (move link : Bool) :
    XferM U (VfsResult × Prepared U) := do
  let saved ← get
  setProgress fun p => { p with bytesTotal := 0, filesTotal := 0 }
  let v ← handleNameConflicts cfg fuel sources targets move link
  setProgress fun p => { p with bytesTotal := 0, filesTotal := 0 }
  let result ← (
    if v.result = .ok && move && v.mergeSources ≠ [] then
      recountMerged cfg fuel v.mergeSources v.mergeTargets
    else pure v.result)
  setProgress fun p => { p with
    bytesTotal := p.bytesTotal + saved.progress.bytesTotal
    filesTotal := p.filesTotal + saved.progress.filesTotal }
  return (result, ⟨move, link, v.keptSources ++ v.restSources, v.keptTargets ++ v.restTargets,
    v.mergeSources, v.mergeTargets⟩)

/-- `gnome_vfs_xfer_uri_internal` behind the preflight count. -/
def prepareCounted (fuel : Nat) (sources targets : List U) (move link : Bool) :
    XferM U (Except VfsResult (Prepared U)) := do
  let targetDir ← firstTargetDir cfg targets
  let (free, freeBytes) ← ask (.volumeFreeSpace targetDir)
  let s ← get
  let result ← (
    if free = .ok && !move && !link && s.progress.bytesTotal > freeBytes then do
      progressSetSourceTargetUris cfg cfg.uris.null targetDir
      let h ← handleError cfg .noSpace
      pure h.result
    else pure .ok)
  if result ≠ .ok then return .error result
  else
    let (result, prepared) ← (
      if cfg.options.useUniqueNames then pure (.ok, ⟨move, link, sources, targets, [], []⟩)
      else settleConflicts cfg fuel sources targets move link)
    setProgress fun p => { p with fileIndex := 0, totalBytesCopied := 0 }
    if result ≠ .ok then
      let h ← handleError cfg result
      return .error (if h.retry then .ok else h.result)
    else
      let _ ← callProgress cfg .readyToGo
      return .ok prepared

/-- `gnome_vfs_xfer_uri_internal` up to the transfer; an error is its result. -/
def xferPrepare (fuel : Nat) (sources targets : List U) : XferM U (Except VfsResult (Prepared U)) := do
  let _ ← callProgress cfg .checkingDestination
  let targetDir ← firstTargetDir cfg targets
  let result ← destinationIsWritable targetDir
  progressSetSourceTargetUris cfg cfg.uris.null targetDir
  if result ≠ .ok then
    let h ← handleError cfg result
    return .error h.result
  else if cfg.options.removeSource && cfg.options.linkItems then return .error .badParameters
  else
    let link := cfg.options.linkItems
    let (result, move) ← (
      if cfg.options.useUniqueNames then pure (.ok, cfg.options.removeSource)
      else sameFileSystem targetDir sources cfg.options.removeSource)
    if result ≠ .ok then return .error result
    else
      let _ ← callProgress cfg .collecting
      let result ← countItemsAndSize cfg fuel sources move link
      if ignoreErrors result ≠ .ok then return .error .interrupted
      else prepareCounted cfg fuel sources targets move link

/-- The transfer itself, with `source_uri_list_copied`. -/
def transferItems (fuel : Nat) (p : Prepared U) : XferM U (VfsResult × List U) := do
  if p.move then
    let result ← moveItems cfg fuel p.sources p.targets
    if result = .ok && p.mergeSources ≠ [] then
      let s ← get
      copyItems cfg fuel p.mergeSources p.mergeTargets s.overwriteMode
    else return (result, [])
  else if p.link then
    let result ← linkItems cfg fuel p.sources p.targets
    return (result, [])
  else
    let s ← get
    copyItems cfg fuel p.sources p.targets s.overwriteMode

/-- The cleanup phase: the copied sources of a move are deleted. -/
def cleanUp (fuel : Nat) (copied : List U) : XferM U VfsResult := do
  let _ ← callProgress cfg .cleanup
  deleteItemsCommon cfg fuel copied

/-- `gnome_vfs_xfer_uri_internal`. -/
def xferUriInternal (fuel : Nat) (sources targets : List U) : XferM U VfsResult := do
  match ← xferPrepare cfg fuel sources targets with
  | .error result => return result
  | .ok prepared =>
    let (result, copied) ← transferItems cfg fuel prepared
    if result = .ok && cfg.options.removeSource && !prepared.link then cleanUp cfg fuel copied
    else return result

end GnomeVfs.Xfer
