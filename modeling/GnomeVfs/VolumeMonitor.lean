import GnomeVfs.FtpControl
import GnomeVfs.LocalPath
import GnomeVfs.MountDevices

/- The daemon's volume monitor without HAL: its volumes and drives, and how they follow the mount
table, the table of mount points and the list of connected servers. -/
namespace GnomeVfs.Volumes

open Mounts

inductive VolumeType where
  | mountpoint | connectedServer | vfsMount
  deriving DecidableEq

inductive DeviceType where
  | unknown | audioCd | videoDvd | harddrive | cdrom | floppy | zip | jaz | nfs | autofs | camera | memoryStick | smb
  | apple | musicPlayer | windows | loopback | network
  deriving DecidableEq

structure Volume where
  id : Nat
  volumeType : VolumeType
  deviceType : DeviceType
  devicePath : Option Bytes
  unixDevice : UInt32
  activationUri : Option Bytes
  filesystemType : Option Bytes
  isReadOnly : Bool
  isMounted : Bool
  displayName : Bytes
  isUserVisible : Bool
  gconfId : Option Bytes
  /-- The drive that the volume is on. -/
  drive : Option Nat
  deriving DecidableEq

structure Drive where
  id : Nat
  deviceType : DeviceType
  devicePath : Option Bytes
  activationUri : Option Bytes
  isConnected : Bool
  displayName : Bytes
  isUserVisible : Bool
  /-- The volumes that are on the drive. -/
  volumes : List Nat
  deriving DecidableEq

/-- An entry as `getmntent` gives it, with all its strings there. -/
structure Mount where
  mountPath : Bytes
  devicePath : Bytes
  filesystemType : Bytes
  isReadOnly : Bool
  deriving DecidableEq

structure MountPoint where
  mountPath : Bytes
  devicePath : Bytes
  filesystemType : Bytes
  devOpt : Option Bytes
  isReadOnly : Bool
  isUserMountable : Bool
  isLoopback : Bool
  deriving DecidableEq

def Mount.unixMount (mount : Mount) : UnixMount :=
  ⟨some mount.mountPath, some mount.devicePath, some mount.filesystemType, mount.isReadOnly⟩

def MountPoint.unixMountPoint (mount : MountPoint) : UnixMountPoint :=
  ⟨some mount.mountPath, some mount.devicePath, some mount.filesystemType, mount.devOpt, mount.isReadOnly,
    mount.isUserMountable, mount.isLoopback⟩

def mountCompare (a b : Mount) : Int := unixMountCompare a.unixMount b.unixMount

def mountPointCompare (a b : MountPoint) : Int := unixMountPointCompare a.unixMountPoint b.unixMountPoint

structure VolumeMonitor where
  mtabVolumes : List Volume
  serverVolumes : List Volume
  vfsVolumes : List Volume
  fstabDrives : List Drive
  vfsDrives : List Drive
  lastMtab : List Mount
  lastFstab : List MountPoint
  lastConnectedServers : List ConnectedServer
  volumeIdCounter : Nat
  driveIdCounter : Nat

/-- What is in the drive with a disc. -/
inductive Disc where
  | audio
  | data (fdOpen : Bool) (volumeName : Option Bytes)
  | other

/-- What is asked of other code and of the system while one update runs. -/
structure Surroundings where
  gettext : Bytes → Bytes
  makeUtf8 : Bytes → Bytes
  filesystemVolumeName : Bytes → Bytes
  /-- `get_drive_name` up to where the name is made unique. -/
  driveName : Bytes → Bytes
  cdromType : Bytes → Disc
  attempts : Nat → Attempt

def volumeNameIsUnique (s : VolumeMonitor) (name : Bytes) : Bool :=
  let taken (volume : Volume) := volume.isUserVisible && strcmp volume.displayName name = 0
  !s.mtabVolumes.any taken && !s.serverVolumes.any taken && !s.vfsVolumes.any taken

def driveNameIsUnique (s : VolumeMonitor) (name : Bytes) : Bool :=
  let taken (drive : Drive) := drive.isUserVisible && strcmp drive.displayName name = 0
  !s.fstabDrives.any taken && !s.vfsDrives.any taken

/-- `g_strdup_printf ("%s (%d)", name, index)`. -/
def numbered (name : Bytes) (index : Nat) : Bytes := name ++ ascii " (" ++ decimal index ++ ascii ")"

/-- The loop that makes a name unique, which is stopped after so many names. -/
def uniquifyFrom (isUnique : Bytes → Bool) (name : Bytes) : Nat → Nat → Bytes → Option Bytes
  | 0, _, _ => none
  | tries + 1, index, uniqueName =>
    if isUnique uniqueName then some uniqueName
    else uniquifyFrom isUnique name tries (index + 1) (numbered name (index + 1))

def uniquifyVolumeName (s : VolumeMonitor) (tries : Nat) (name : Bytes) : Option Bytes :=
  uniquifyFrom (volumeNameIsUnique s) name tries 1 name

def uniquifyDriveName (s : VolumeMonitor) (tries : Nat) (name : Bytes) : Option Bytes :=
  uniquifyFrom (driveNameIsUnique s) name tries 1 name

/-- The first entry with the activation URI. `strcmp` cannot be asked about a missing URI. -/
def findByActivationUri {α : Type} (activationUri : α → Option Bytes) (uri : Option Bytes) : List α → Option (Option α)
  | [] => some none
  | x :: l =>
    match activationUri x with
    | none => findByActivationUri activationUri uri l
    | some own => do
      let uri' ← uri
      if strcmp own uri' = 0 then some (some x) else findByActivationUri activationUri uri l

def findMtabVolumeByActivationUri (s : VolumeMonitor) (uri : Option Bytes) : Option (Option Volume) :=
  findByActivationUri Volume.activationUri uri s.mtabVolumes

def findFstabDriveByActivationUri (s : VolumeMonitor) (uri : Option Bytes) : Option (Option Drive) :=
  findByActivationUri Drive.activationUri uri s.fstabDrives

def findConnectedServerByGconfId (s : VolumeMonitor) (id : Bytes) : Option Volume :=
  s.serverVolumes.find? fun volume => volume.gconfId.any fun own => strcmp own id = 0

def mounted (s : VolumeMonitor) (volume : Volume) : VolumeMonitor :=
  let volume := { volume with isMounted := true }
  match volume.volumeType with
  | .mountpoint => { s with mtabVolumes := volume :: s.mtabVolumes }
  | .connectedServer => { s with serverVolumes := volume :: s.serverVolumes }
  | .vfsMount => { s with vfsVolumes := volume :: s.vfsVolumes }

/-- `g_list_remove`. -/
def without (id : Nat) (volumes : List Volume) : List Volume := volumes.eraseP fun volume => volume.id = id

/-- What is done to one of the drives. -/
def onDrive (s : VolumeMonitor) (id : Nat) (f : Drive → Drive) : VolumeMonitor :=
  { s with fstabDrives := s.fstabDrives.map fun drive => if drive.id = id then f drive else drive }

/-- `gnome_vfs_volume_set_drive_private` and `gnome_vfs_volume_unset_drive_private`. -/
def setDrive (s : VolumeMonitor) (id : Nat) (drive : Option Nat) : VolumeMonitor :=
  { s with mtabVolumes := s.mtabVolumes.map fun volume => if volume.id = id then { volume with drive := drive } else volume }

/-- A volume is taken out of all lists. -/
def delist (s : VolumeMonitor) (id : Nat) : VolumeMonitor :=
  { s with
    mtabVolumes := without id s.mtabVolumes
    serverVolumes := without id s.serverVolumes
    vfsVolumes := without id s.vfsVolumes }

/-- `none`: the volume is not on its drive, which is an assertion. -/
def unmounted (s : VolumeMonitor) (volume : Volume) : Option VolumeMonitor :=
  let s := delist s volume.id
  match volume.drive with
  | none => some s
  | some id =>
    if s.fstabDrives.all fun drive => drive.id ≠ id || drive.volumes.contains volume.id then
      some (onDrive s id fun drive => { drive with volumes := drive.volumes.erase volume.id })
    else none

def connected (s : VolumeMonitor) (drive : Drive) : VolumeMonitor :=
  { s with fstabDrives := { drive with isConnected := true } :: s.fstabDrives }

/-- The loop over the volumes of a drive, which takes the first one in each turn. It has to be on the
drive still, which is an assertion. -/
def unsetDrives (drive first : Nat) : List Nat → VolumeMonitor → Option VolumeMonitor
  | [], s => some s
  | _ :: currentVol, s =>
    if s.mtabVolumes.any fun volume => volume.id = first && volume.drive = some drive then
      unsetDrives drive first currentVol (setDrive s first none)
    else none

def disconnected (s : VolumeMonitor) (drive : Drive) : Option VolumeMonitor :=
  let s := { s with fstabDrives := s.fstabDrives.eraseP fun other => other.id = drive.id }
  unsetDrives drive.id (drive.volumes.headD 0) drive.volumes s

/-- What the first prefix that fits stands for. -/
def firstPrefix (table : List (String × DeviceType)) (s : Bytes) : Option DeviceType :=
  (table.find? fun row => (ascii row.1).isPrefixOf s).map Prod.snd

/-- The second test for a diskette below `/vol/` is left out: the first one came before it. -/
def getDeviceTypeFromDeviceAndMount (devicePath mountPath : Bytes) : DeviceType :=
  match firstPrefix [("/dev/loop", .loopback), ("/dev/vn", .loopback), ("/vol/dev/diskette/", .floppy), ("/dev/fd", .floppy),
      ("/dev/floppy", .floppy), ("/dev/cdrom", .cdrom), ("/dev/acd", .cdrom), ("/dev/cd", .cdrom)] devicePath with
  | some type => type
  | none =>
    if (ascii "/vol/").isPrefixOf devicePath then
      (firstPrefix [("cdrom", .cdrom), ("floppy", .floppy), ("rmdisk", .zip), ("jaz", .jaz), ("camera", .camera),
        ("memstick", .memoryStick)] (mountPath.drop 1)).getD .harddrive
    else
      (firstPrefix [("cdrom", .cdrom), ("cdwriter", .cdrom), ("burn", .cdrom), ("cdr", .cdrom), ("cdrw", .cdrom),
        ("dvdrom", .cdrom), ("dvdram", .cdrom), ("dvdr", .cdrom), ("dvdrw", .cdrom), ("cdrom_dvdrom", .cdrom),
        ("cdrom_dvdram", .cdrom), ("cdrom_dvdr", .cdrom), ("cdrom_dvdrw", .cdrom), ("cdr_dvdrom", .cdrom),
        ("cdr_dvdram", .cdrom), ("cdr_dvdr", .cdrom), ("cdr_dvdrw", .cdrom), ("cdrw_dvdrom", .cdrom),
        ("cdrw_dvdram", .cdrom), ("cdrw_dvdr", .cdrom), ("cdrw_dvdrw", .cdrom), ("floppy", .floppy), ("zip", .zip),
        ("jaz", .jaz), ("camera", .camera), ("memstick", .memoryStick), ("compact_flash", .memoryStick),
        ("memory_stick", .memoryStick), ("smart_media", .memoryStick), ("sd_mmc", .memoryStick), ("ram", .memoryStick),
        ("ipod", .musicPlayer)] (Ftp.pathGetBasename mountPath)).getD .harddrive

/-- `if (type == GNOME_VFS_DEVICE_TYPE_UNKNOWN)`. -/
def DeviceType.ifUnknown (type other : DeviceType) : DeviceType := if type = .unknown then other else type

/-- Whether the type of a file system is one of these. -/
def isOneOf (filesystemType : Bytes) (names : List String) : Bool := names.any fun name => strcmp filesystemType (ascii name) = 0

/-- The type of the device of a mount, as far as the disc is not looked at. -/
def mountDeviceType (mount : Mount) : DeviceType :=
  let type := getDeviceTypeFromDeviceAndMount mount.devicePath mount.mountPath
  let type :=
    if isOneOf mount.filesystemType ["iso9660", "cd9660"] then type.ifUnknown .cdrom
    else if isOneOf mount.filesystemType ["nfs"] then
      if mount.devicePath.tails.any (ascii "(pid").isPrefixOf then .autofs else .nfs
    else if isOneOf mount.filesystemType ["autofs"] then .autofs
    else if isOneOf mount.filesystemType ["hfs", "hfsplus"] then type.ifUnknown .apple
    else if isOneOf mount.filesystemType ["vfat", "fat", "ntfs", "msdos", "msdosfs"] then type.ifUnknown .windows
    else type
  type.ifUnknown .harddrive

def mountPointDeviceType (mount : MountPoint) : DeviceType :=
  let type := getDeviceTypeFromDeviceAndMount mount.devicePath mount.mountPath
  if isOneOf mount.filesystemType ["iso9660", "cd9660", "hsfs"] then type.ifUnknown .cdrom
  else if isOneOf mount.filesystemType ["cdrfs"] then type.ifUnknown .cdrom
  else if isOneOf mount.filesystemType ["hfs", "hfsplus"] then type.ifUnknown .apple
  else if isOneOf mount.filesystemType ["vfat", "fat", "ntfs", "msdos", "msdosfs"] then type.ifUnknown .windows
  else if isOneOf mount.filesystemType ["smbfs", "cifs"] then .smb
  else if mount.isLoopback then .loopback
  else type

/-- `g_ascii_isspace`, for `g_strchomp`. -/
def asciiIsSpace (c : UInt8) : Bool := c = 32 || c = 9 || c = 10 || c = 12 || c = 13

def modifyVolumeNameForDisplay (unmodifiedName : Bytes) : Bytes :=
  (unmodifiedName.reverse.dropWhile asciiIsSpace).reverse.map fun c => if c = chrSlash then 45 else c

def makeVolumeNameFromPathAndFs (around : Surroundings) (mountPath fsType : Bytes) : Bytes :=
  if mountPath = [chrSlash] then around.gettext (ascii "Root Volume")
  else if chrSlash ∉ mountPath then around.filesystemVolumeName fsType
  else modifyVolumeNameForDisplay (mountPath.reverse.takeWhile (· ≠ chrSlash)).reverse

/-- Whether a device is one of those whose path ends in a slice on Solaris. -/
def needsFixup (devicePath mountPath : Bytes) : Bool :=
  (ascii "/vol/").isPrefixOf devicePath && (ascii "/rmdisk").isPrefixOf mountPath && (ascii ":c").isSuffixOf devicePath

def fixupMount (mount : Mount) : Mount :=
  if needsFixup mount.devicePath mount.mountPath then
    { mount with devicePath := mount.devicePath.take (mount.devicePath.length - 2) }
  else mount

def fixupMountpoint (mount : MountPoint) : MountPoint :=
  if needsFixup mount.devicePath mount.mountPath then
    { mount with devicePath := mount.devicePath.take (mount.devicePath.length - 2) }
  else mount

/-- What a disc tells about its volume: the type and the name. -/
def probeDisc (around : Surroundings) (type : DeviceType) (devicePath : Bytes) : DeviceType × Option Bytes :=
  if type = .cdrom then
    match around.cdromType devicePath with
    | .audio => (.audioCd, some (around.gettext (ascii "Audio CD")))
    | .data true (some name) => (type, some (modifyVolumeNameForDisplay name))
    | .data _ _ => (type, none)
    | .other => (type, none)
  else (type, none)

/-- The name of a new volume before it is made unique. -/
def volumeName (around : Surroundings) (mount : Mount) (discName : Option Bytes) : Bytes :=
  let name := discName.getD (makeVolumeNameFromPathAndFs around mount.mountPath mount.filesystemType)
  around.makeUtf8 (if name = [] then around.gettext (ascii "Unknown volume") else name)

def isVisibleType : DeviceType → Bool
  | .cdrom | .floppy | .zip | .jaz | .camera | .memoryStick => true
  | _ => false

/-- So many user-visible volumes there are. -/
def visibleVolumes (s : VolumeMonitor) : List Volume :=
  (s.mtabVolumes ++ s.serverVolumes ++ s.vfsVolumes).filter Volume.isUserVisible

def visibleDrives (s : VolumeMonitor) : List Drive := (s.fstabDrives ++ s.vfsDrives).filter Drive.isUserVisible

/-- A new volume, and the mount as it was changed on the way. -/
def createVolFromMount (around : Surroundings) (s : VolumeMonitor) (mount : Mount) : Option (Volume × Mount × VolumeMonitor) := do
  let mount := fixupMount mount
  let id := s.volumeIdCounter
  let s := { s with volumeIdCounter := id + 1 }
  let disc := probeDisc around (mountDeviceType mount) mount.devicePath
  let name ← uniquifyVolumeName s ((visibleVolumes s).length + 1) (volumeName around mount disc.2)
  let volume : Volume :=
    { id := id, volumeType := .mountpoint, deviceType := disc.1, devicePath := some mount.devicePath, unixDevice := 0,
      activationUri := getUriFromLocalPath mount.mountPath, filesystemType := some mount.filesystemType,
      isReadOnly := mount.isReadOnly, isMounted := true, displayName := name, isUserVisible := isVisibleType disc.1,
      gconfId := none, drive := none }
  let containingDrive ← findFstabDriveByActivationUri s (getUriFromLocalPath mount.mountPath)
  match containingDrive with
  | none => some (volume, mount, s)
  | some drive =>
    if drive.volumes.contains id then some (volume, mount, s)
    else some ({ volume with drive := some drive.id, isUserVisible := drive.isUserVisible || volume.isUserVisible }, mount,
      onDrive s drive.id fun drive => { drive with volumes := drive.volumes ++ [id] })

/-- `none` within: a mount point that is not for users has no drive. -/
def createDriveFromMountPoint (around : Surroundings) (s : VolumeMonitor) (mount : MountPoint) :
    Option (Option (Drive × MountPoint × VolumeMonitor)) :=
  if mount.isLoopback || !(mount.isUserMountable || (ascii "/vol/").isPrefixOf mount.devicePath) then some none
  else do
    let mount := fixupMountpoint mount
    let id := s.driveIdCounter
    let s := { s with driveIdCounter := id + 1 }
    let devicePath := if isOneOf mount.filesystemType ["supermount"] then mount.devOpt.getD mount.devicePath else mount.devicePath
    let name ← uniquifyDriveName s ((visibleDrives s).length + 1) (around.makeUtf8 (around.driveName mount.mountPath))
    let drive : Drive :=
      { id := id, deviceType := mountPointDeviceType mount, devicePath := some devicePath,
        activationUri := getUriFromLocalPath mount.mountPath, isConnected := true, displayName := name,
        isUserVisible := true, volumes := [] }
    let mountedVolume ← findMtabVolumeByActivationUri s (getUriFromLocalPath mount.mountPath)
    match mountedVolume with
    | none => some (some (drive, mount, s))
    | some volume =>
      if volume.drive = none then
        some (some ({ drive with volumes := [volume.id] }, mount, setDrive s volume.id (some id)))
      else some (some (drive, mount, s))

def createVolumeFromConnectedServer (s : VolumeMonitor) (server : ConnectedServer) : Option (Volume × VolumeMonitor) := do
  let id := s.volumeIdCounter
  let s := { s with volumeIdCounter := id + 1 }
  let name ← uniquifyVolumeName s ((visibleVolumes s).length + 1) server.displayName
  let volume : Volume :=
    { id := id, volumeType := .connectedServer, deviceType := .unknown, devicePath := none, unixDevice := 0,
      activationUri := some server.uri, filesystemType := none, isReadOnly := false, isMounted := true, displayName := name,
      isUserVisible := true, gconfId := some server.id, drive := none }
  some (volume, s)

def removeMounts (s : VolumeMonitor) (removed : List Mount) : Option VolumeMonitor :=
  removed.foldlM (fun s mount => do
    match ← findMtabVolumeByActivationUri s (getUriFromLocalPath mount.mountPath) with
    | some volume => unmounted s volume
    | none => some s) s

/-- The mounts that were added are entries of the new table, which is changed with them. -/
def addMounts (around : Surroundings) (s : VolumeMonitor) (newMtab : List Mount) :
    List ((Mount × Nat) × UInt32) → Option (VolumeMonitor × List Mount)
  | [] => some (s, newMtab)
  | ((mount, place), unixDevice) :: added => do
    let (volume, mount, s) ← createVolFromMount around s mount
    addMounts around (mounted s { volume with unixDevice := unixDevice }) (newMtab.set place mount) added

def updateMtabVolumes (around : Surroundings) (newMtab : List Mount) (s : VolumeMonitor) : Option VolumeMonitor := do
  let newMtab := newMtab.mergeSort fun a b => mountCompare a b ≤ 0
  let diff := diffSortedLists (fun a b => mountCompare a.1 b.1) s.lastMtab.zipIdx newMtab.zipIdx
  let s ← removeMounts s (diff.removed.map Prod.fst)
  let devices ← unixMountGetUnixDevice around.attempts diff.added.length (diff.added.map fun entry => entry.1.unixMount)
  let added ← walkDevices diff.added devices
  let (s, newMtab) ← addMounts around s newMtab added
  some { s with lastMtab := newMtab }

def removeMountPoints (s : VolumeMonitor) (removed : List MountPoint) : Option VolumeMonitor :=
  removed.foldlM (fun s mount => do
    match ← findFstabDriveByActivationUri s (getUriFromLocalPath mount.mountPath) with
    | some drive => disconnected s drive
    | none => some s) s

def addMountPoints (around : Surroundings) (s : VolumeMonitor) (newFstab : List MountPoint) :
    List (MountPoint × Nat) → Option (VolumeMonitor × List MountPoint)
  | [] => some (s, newFstab)
  | (mount, place) :: added => do
    match ← createDriveFromMountPoint around s mount with
    | none => addMountPoints around s newFstab added
    | some (drive, mount, s) => addMountPoints around (connected s drive) (newFstab.set place mount) added

def updateFstabDrives (around : Surroundings) (newFstab : List MountPoint) (s : VolumeMonitor) : Option VolumeMonitor := do
  let newFstab := newFstab.mergeSort fun a b => mountPointCompare a b ≤ 0
  let diff := diffSortedLists (fun a b => mountPointCompare a.1 b.1) s.lastFstab.zipIdx newFstab.zipIdx
  let s ← removeMountPoints s (diff.removed.map Prod.fst)
  let (s, newFstab) ← addMountPoints around s newFstab diff.added
  some { s with lastFstab := newFstab }

def removeServers (s : VolumeMonitor) (removed : List ConnectedServer) : Option VolumeMonitor :=
  removed.foldlM (fun s server =>
    match findConnectedServerByGconfId s server.id with
    | some volume => unmounted s volume
    | none => some s) s

def addServers (s : VolumeMonitor) (added : List ConnectedServer) : Option VolumeMonitor :=
  added.foldlM (fun s server => do
    let (volume, s) ← createVolumeFromConnectedServer s server
    some (mounted s volume)) s

def updateConnectedServers (newServers : List ConnectedServer) (s : VolumeMonitor) : Option VolumeMonitor := do
  let newServers := newServers.mergeSort fun a b => connectedServerCompare a b ≤ 0
  let diff := diffSortedLists connectedServerCompare s.lastConnectedServers newServers
  let s ← removeServers s diff.removed
  let s ← addServers s diff.added
  some { s with lastConnectedServers := newServers }

/-- One run of an update function on what it reads. A table that has not changed is not read. -/
inductive Update where
  | mtab (around : Surroundings) (table : List Mount)
  | fstab (around : Surroundings) (table : List MountPoint)
  | servers (list : List ConnectedServer)

/-- `none`: the daemon is ended by an assertion or by a string that is not there. -/
def step (s : VolumeMonitor) : Update → Option VolumeMonitor
  | .mtab around table => updateMtabVolumes around table s
  | .fstab around table => updateFstabDrives around table s
  | .servers list => updateConnectedServers list s

def start : VolumeMonitor := ⟨[], [], [], [], [], [], [], [], 1, 1⟩

end GnomeVfs.Volumes
