import GnomeVfs.BigEndian
import GnomeVfs.CString
import GnomeVfs.EscapeCount
import GnomeVfs.Memory
import GnomeVfs.SftpTransfer

/- The messages of the protocol as bytes in a buffer that grows. A `gint32` is held as its 32 bits.
Memory that has been allocated or declared and not written holds anything; `stale` is what a
variable holds there. -/
namespace GnomeVfs.Sftp.Wire

/-- `Buffer`. A pointer is its distance from `base`, `written` is the memory between `base` and
`write_ptr`, and nothing is known of what is behind it. -/
structure Buffer where
  written : Bytes
  readPtr : Nat
  alloc : Int
  deriving DecidableEq

def Buffer.writePtr (b : Buffer) : Nat := b.written.length

def initBufferAlloc : Nat := 128

/-- `sizeof (guint)`, which is `sizeof (guint32)`: the place of the length in front of a message. -/
def headerSize : Nat := 4

/-- `buffer_init`. -/
def bufferInit : Buffer := ⟨List.replicate headerSize 0, headerSize, initBufferAlloc⟩

/-- A message with these bytes, to be read from their start. -/
def messageOf (bytes : Bytes) : Buffer := ⟨List.replicate headerSize 0 ++ bytes, headerSize, initBufferAlloc⟩

/-- The loop of `buffer_check_alloc`; 32 rounds are more than a `gint` can double. `g_realloc` does
not come back from a negative size, which is a `gsize` beyond all memory. -/
def growLoop : Nat → Int → Int → Option Int
  | 0, _, _ => none
  | fuel + 1, needed, alloc =>
    if needed > alloc then
      if gint (alloc * 2) < 0 then none else growLoop fuel needed (gint (alloc * 2))
    else some alloc

/-- `buffer_check_alloc`. -/
def bufferCheckAlloc (b : Buffer) (size : Nat) : Option Buffer :=
  (growLoop 32 (b.writePtr + size) b.alloc).map fun alloc => { b with alloc := alloc }

/-- `buffer_clear`. -/
def bufferClear (b : Buffer) : Buffer := { b with written := b.written.take headerSize, readPtr := headerSize }

/-- `buffer_write`. -/
def bufferWrite (b : Buffer) (data : Bytes) : Option Buffer :=
  (bufferCheckAlloc b data.length).map fun b => { b with written := b.written ++ data }

/-- `buffer_read`: the bytes that are copied. Fewer than `size` only make it complain. -/
def bufferRead (b : Buffer) (size : Nat) : Bytes × Buffer :=
  let len := min size (b.writePtr - b.readPtr)
  (Memory.slice b.written b.readPtr len, { b with readPtr := b.readPtr + len })

/-- A variable of `size` bytes behind a copy to its front. -/
def copiedOver (stale : Nat → UInt8) (size : Nat) (copied : Bytes) : Bytes :=
  copied ++ (List.range' copied.length (size - copied.length)).map stale

section Values

variable (stale heap : Nat → UInt8)

def bufferReadGchar (b : Buffer) : UInt8 × Buffer :=
  let read := bufferRead b 1
  ((copiedOver stale 1 read.1).headD 0, read.2)

def bufferReadGint32 (b : Buffer) : UInt32 × Buffer :=
  let read := bufferRead b 4
  (UInt32.ofNat (BigEndian.decode (copiedOver stale 4 read.1)), read.2)

def bufferReadGint64 (b : Buffer) : UInt64 × Buffer :=
  let read := bufferRead b 8
  (UInt64.ofNat (BigEndian.decode (copiedOver stale 8 read.1)), read.2)

/-- `buffer_read_block`. There is no memory for a negative number of bytes. -/
def bufferReadBlock (b : Buffer) : Option (Bytes × Buffer) :=
  let len := bufferReadGint32 stale b
  if len.1.toNat ≥ 2 ^ 31 then none
  else
    let read := bufferRead len.2 len.1.toNat
    some (copiedOver heap len.1.toNat read.1, read.2)

/-- `buffer_read_string`, with the terminator that it puts behind the bytes. -/
def bufferReadString (b : Buffer) : Option (Bytes × Buffer) :=
  (bufferReadBlock stale heap b).map fun read => (read.1 ++ [0], read.2)

def bufferWriteGchar (b : Buffer) (data : UInt8) : Option Buffer := bufferWrite b [data]

def bufferWriteGint32 (b : Buffer) (data : UInt32) : Option Buffer := bufferWrite b (BigEndian.encode 4 data.toNat)

def bufferWriteGint64 (b : Buffer) (data : UInt64) : Option Buffer := bufferWrite b (BigEndian.encode 8 data.toNat)

/-- `buffer_write_block`, of the first `len` bytes at `ptr`. -/
def bufferWriteBlock (b : Buffer) (ptr : Bytes) (len : UInt32) : Option Buffer := do
  let b ← bufferWriteGint32 b len
  bufferWrite b (ptr.take len.toNat)

def bufferWriteString (b : Buffer) (data : Bytes) : Option Buffer :=
  bufferWriteBlock b data (UInt32.ofNat data.length)

end Values

section Attributes

def attrSize : UInt32 := 0x00000001
def attrUidgid : UInt32 := 0x00000002
def attrPermissions : UInt32 := 0x00000004
def attrAcmodtime : UInt32 := 0x00000008
def attrExtended : UInt32 := 0x80000000

/-- `GNOME_VFS_FILE_INFO_FIELDS_*`. -/
inductive Field where
  | type | permissions | flags | size | ioBlockSize | atime | mtime
  deriving DecidableEq

/-- `GnomeVFSFileInfo`; `symlinkFlag` says that `flags` is `GNOME_VFS_FILE_FLAGS_SYMLINK`. -/
structure FileInfo where
  validFields : List Field
  type : FileType
  permissions : UInt32
  symlinkFlag : Bool
  size : UInt64
  ioBlockSize : Nat
  atime : Int
  mtime : Int
  deriving DecidableEq

/-- `GnomeVFSSetFileInfoMask`, as far as it is looked at. -/
structure SetFileInfoMask where
  permissions : Bool
  time : Bool

/-- The file type in `permissions & S_IFMT`. -/
def typeOfPermissions (permissions : UInt32) : FileType :=
  if permissions &&& 0xF000 = 0x8000 then .regular
  else if permissions &&& 0xF000 = 0x4000 then .directory
  else if permissions &&& 0xF000 = 0x1000 then .fifo
  else if permissions &&& 0xF000 = 0xC000 then .socket
  else if permissions &&& 0xF000 = 0x2000 then .characterDevice
  else if permissions &&& 0xF000 = 0x6000 then .blockDevice
  else if permissions &&& 0xF000 = 0xA000 then .symbolicLink
  else .unknown

/-- A `gint32` in a `time_t`. -/
def timeOfBits (bits : UInt32) : Int := bits.toInt32.toInt

/-- A `time_t` in a `gint32`. -/
def bitsOfTime (time : Int) : UInt32 := (Int32.ofInt time).toUInt32

variable (stale : Nat → UInt8)

/-- The part of `buffer_read_file_info` for `SSH2_FILEXFER_ATTR_SIZE`. -/
def readSize (flags : UInt32) (x : FileInfo × Buffer) : FileInfo × Buffer :=
  if flags &&& attrSize ≠ 0 then
    let size := bufferReadGint64 stale x.2
    ({ x.1 with validFields := x.1.validFields ++ [.size], size := size.1 }, size.2)
  else x

/-- The part for `SSH2_FILEXFER_ATTR_UIDGID`, which is skipped. -/
def skipUidgid (flags : UInt32) (x : FileInfo × Buffer) : FileInfo × Buffer :=
  if flags &&& attrUidgid ≠ 0 then (x.1, (bufferReadGint32 stale (bufferReadGint32 stale x.2).2).2) else x

/-- The part for `SSH2_FILEXFER_ATTR_PERMISSIONS`. -/
def readPermissions (flags : UInt32) (x : FileInfo × Buffer) : FileInfo × Buffer :=
  if flags &&& attrPermissions ≠ 0 then
    let permissions := bufferReadGint32 stale x.2
    let type := typeOfPermissions permissions.1
    ({ x.1 with
        validFields := x.1.validFields ++ [.permissions, .type, .flags]
        permissions := permissions.1
        type := type
        symlinkFlag := decide (type = .symbolicLink) }, permissions.2)
  else x

/-- The part for `SSH2_FILEXFER_ATTR_ACMODTIME`. -/
def readTimes (flags : UInt32) (x : FileInfo × Buffer) : FileInfo × Buffer :=
  if flags &&& attrAcmodtime ≠ 0 then
    let atime := bufferReadGint32 stale x.2
    let mtime := bufferReadGint32 stale atime.2
    ({ x.1 with
        validFields := x.1.validFields ++ [.atime, .mtime]
        atime := timeOfBits atime.1
        mtime := timeOfBits mtime.1 }, mtime.2)
  else x

/-- `buffer_read_file_info`. -/
def bufferReadFileInfo (b : Buffer) (info : FileInfo) : FileInfo × Buffer :=
  let flags := bufferReadGint32 stale b
  let x := readTimes stale flags.1 (readPermissions stale flags.1 (skipUidgid stale flags.1
    (readSize stale flags.1 ({ info with validFields := [] }, flags.2))))
  ({ x.1 with validFields := x.1.validFields ++ [.ioBlockSize], ioBlockSize := defaultReqLen * maxReq }, x.2)

/-- The flags that `buffer_write_file_info` sets. -/
def SetFileInfoMask.attrFlags (mask : SetFileInfoMask) : UInt32 :=
  (if mask.permissions then attrPermissions else 0) ||| (if mask.time then attrAcmodtime else 0)

/-- The part of `buffer_write_file_info` for the permissions. -/
def writePermissions (b : Buffer) (info : FileInfo) (mask : SetFileInfoMask) : Option Buffer :=
  if mask.permissions then bufferWriteGint32 b (info.permissions &&& 0x1FF) else some b

/-- The part for the times. -/
def writeTimes (b : Buffer) (info : FileInfo) (mask : SetFileInfoMask) : Option Buffer :=
  if mask.time then do
    let b ← bufferWriteGint32 b (bitsOfTime info.atime)
    bufferWriteGint32 b (bitsOfTime info.mtime)
  else some b

/-- `buffer_write_file_info`. -/
def bufferWriteFileInfo (b : Buffer) (info : FileInfo) (mask : SetFileInfoMask) : Option Buffer := do
  let b ← bufferWriteGint32 b mask.attrFlags
  let b ← writePermissions b info mask
  writeTimes b info mask

end Attributes

end GnomeVfs.Sftp.Wire
