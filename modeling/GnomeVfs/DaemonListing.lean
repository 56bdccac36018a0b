import GnomeVfs.EscapeRoundtrip

/- Reading a directory through the daemon, which sends the entries in chunks. -/
namespace GnomeVfs.Daemon

/-- `GnomeVFSFileInfo`. -/
structure FileInfo where
  name : Option Bytes
  validFields : BitVec 32
  type : BitVec 32
  permissions : BitVec 32
  flags : BitVec 32
  device : BitVec 64
  inode : BitVec 64
  linkCount : BitVec 32
  uid : BitVec 32
  gid : BitVec 32
  size : BitVec 64
  blockCount : BitVec 64
  ioBlockSize : BitVec 32
  atime : BitVec 64
  mtime : BitVec 64
  ctime : BitVec 64
  symlinkName : Option Bytes
  mimeType : Option Bytes
  selinuxContext : Option Bytes
  deriving DecidableEq

/-- The members of the D-Bus struct that stands for a file info. -/
structure WireInfo where
  validFields : BitVec 32
  name : Bytes
  type : BitVec 32
  permissions : BitVec 32
  flags : BitVec 32
  device : BitVec 32
  inode : BitVec 64
  linkCount : BitVec 32
  uid : BitVec 32
  gid : BitVec 32
  size : BitVec 64
  blockCount : BitVec 64
  atime : BitVec 32
  mtime : BitVec 32
  ctime : BitVec 32
  symlinkName : Bytes
  mimeType : Bytes
  deriving DecidableEq

/-- `utils_append_string_or_null`. -/
def appendStringOrNull (str : Option Bytes) : Bytes := str.getD []

/-- `utils_peek_string_or_null`. -/
def peekStringOrNull (str : Bytes) (emptyIsNull : Bool) : Option Bytes :=
  if emptyIsNull = true ∧ str = [] then none else some str

/-- `gnome_vfs_daemon_message_iter_append_file_info`. -/
def appendFileInfo (info : FileInfo) : WireInfo where
  validFields := info.validFields
  name := appendStringOrNull (info.name.map escapePathString)
  type := info.type
  permissions := info.permissions
  flags := info.flags
  device := info.device.truncate 32
  inode := info.inode
  linkCount := info.linkCount
  uid := info.uid
  gid := info.gid
  size := info.size
  blockCount := info.blockCount
  atime := info.atime.truncate 32
  mtime := info.mtime.truncate 32
  ctime := info.ctime.truncate 32
  symlinkName := appendStringOrNull (info.symlinkName.map escapePathString)
  mimeType := appendStringOrNull info.mimeType

/-- `gnome_vfs_daemon_message_iter_get_file_info`. What is not sent is as in a new file info. -/
def getFileInfo (wire : WireInfo) : FileInfo where
  name := (peekStringOrNull wire.name false).bind (unescapeString [])
  validFields := wire.validFields
  type := wire.type
  permissions := wire.permissions
  flags := wire.flags
  device := wire.device.signExtend 64
  inode := wire.inode
  linkCount := wire.linkCount
  uid := wire.uid
  gid := wire.gid
  size := wire.size
  blockCount := wire.blockCount
  ioBlockSize := 0
  atime := wire.atime.signExtend 64
  mtime := wire.mtime.signExtend 64
  ctime := wire.ctime.signExtend 64
  symlinkName := (peekStringOrNull wire.symlinkName true).bind (unescapeString [])
  mimeType := peekStringOrNull wire.mimeType true
  selinuxContext := none

def transmit (info : FileInfo) : FileInfo := getFileInfo (appendFileInfo info)

theorem transmit_name {info : FileInfo} {name : Bytes} (named : info.name = some name) (proper : (0 : UInt8) ∉ name) :
    (transmit info).name = some name := by
  have round : unescapeString [] (escapePathString name) = some name :=
    unescapeString_escapeStringInternal .path name proper
  show (peekStringOrNull (appendStringOrNull (info.name.map escapePathString)) false).bind _ = _
  rw [named]
  exact round

/-- What `gnome_vfs_directory_read_next_cancellable` has still to give: entries, and then always the same
error. -/
structure Directory where
  entries : List FileInfo
  last : VfsResult

def Directory.readNext (d : Directory) : VfsResult × Option FileInfo :=
  match d.entries with
  | info :: _ => (.ok, some info)
  | [] => (d.last, none)

def Directory.rest (d : Directory) : Directory := { d with entries := d.entries.tail }

def readdirChunkSize : Nat := 60

/-- The loop of `connection_handle_read_directory`: its result, what it has put into the reply, and what
is left of the directory. -/
def readDirectoryLoop (last : VfsResult) : List FileInfo → Nat → VfsResult × List WireInfo × List FileInfo
  | [], _ => (last, [], [])
  | info :: rest, numEntries =>
    if numEntries = readdirChunkSize then (.ok, [appendFileInfo info], rest)
    else
      let next := readDirectoryLoop last rest (numEntries + 1)
      (next.1, appendFileInfo info :: next.2.1, next.2.2)

/-- A reply with result OK and a list, or with a result only. -/
inductive Reply where
  | infos (list : List WireInfo)
  | result (result : VfsResult)
  deriving DecidableEq

/-- `connection_handle_read_directory`, without cancellation. -/
def connectionHandleReadDirectory (d : Directory) : Reply × Directory :=
  let read := readDirectoryLoop d.last d.entries 0
  (if read.1 = .ok ∨ read.1 = .eof then .infos read.2.1 else .result read.1, { d with entries := read.2.2 })

/-- The client's `DirectoryHandle`: the list that it frees, and where it stands in it. -/
structure DirectoryHandle where
  dirs : List FileInfo
  current : List FileInfo

def directoryHandleNew : DirectoryHandle := ⟨[], []⟩

/-- A directory that is open in the client and in the daemon. -/
structure Session where
  handle : DirectoryHandle
  directory : Directory

/-- `do_read_directory`, from where there is a list. -/
def takeCurrent (handle : DirectoryHandle) : (VfsResult × Option FileInfo) × DirectoryHandle :=
  match handle.current with
  | info :: current => ((.ok, some info), ⟨if current = [] then [] else handle.dirs, current⟩)
  | [] => ((.eof, none), handle)

/-- `do_read_directory`. A reply with result EOF would be read for a list; the daemon sends none. -/
def doReadDirectory (s : Session) : (VfsResult × Option FileInfo) × Session :=
  if s.handle.dirs = [] then
    let (reply, directory) := connectionHandleReadDirectory s.directory
    match reply with
    | .result result => ((result, none), ⟨s.handle, directory⟩)
    | .infos list =>
      let list := list.map getFileInfo
      if list = [] then ((.eof, none), ⟨⟨[], []⟩, directory⟩)
      else
        let (result, handle) := takeCurrent ⟨list, list⟩
        (result, ⟨handle, directory⟩)
  else
    let (result, handle) := takeCurrent s.handle
    (result, ⟨handle, s.directory⟩)

section Listing

/-- The result of the n-th of successive calls of `do_read_directory`, counted from 0. -/
def Session.result (s : Session) : Nat → VfsResult × Option FileInfo
  | 0 => (doReadDirectory s).1
  | n + 1 => (doReadDirectory s).2.result n

/-- The same of `gnome_vfs_directory_read_next_cancellable` called in the daemon. -/
def Directory.result (d : Directory) : Nat → VfsResult × Option FileInfo
  | 0 => d.readNext
  | n + 1 => d.rest.result n

/-- The client gets exactly what the daemon would read, as the codec transmits it. -/
def Session.Agrees (s : Session) (d : Directory) : Prop := ∀ n, s.result n = d.result n

variable {last : VfsResult} {entries : List FileInfo} {s : Session}

theorem readDirectoryLoop_eq (last : VfsResult) (entries : List FileInfo) : ∀ {numEntries : Nat},
    numEntries ≤ readdirChunkSize → readDirectoryLoop last entries numEntries =
      if entries.length < readdirChunkSize + 1 - numEntries then (last, entries.map appendFileInfo, [])
      else (.ok, (entries.take (readdirChunkSize + 1 - numEntries)).map appendFileInfo,
        entries.drop (readdirChunkSize + 1 - numEntries)) := by
  induction entries with
  | nil =>
    intro numEntries small
    rw [readDirectoryLoop, if_pos (by rw [List.length_nil]; omega)]
    rfl
  | cons info rest ih =>
    intro numEntries small
    rw [readDirectoryLoop]
    by_cases full : numEntries = readdirChunkSize
    · have one : readdirChunkSize + 1 - numEntries = 1 := by omega
      rw [if_pos full, one, if_neg (by rw [List.length_cons]; omega)]
      rfl
    · have more : readdirChunkSize + 1 - numEntries = readdirChunkSize + 1 - (numEntries + 1) + 1 := by omega
      rw [if_neg full, ih (by omega), more]
      by_cases short : rest.length < readdirChunkSize + 1 - (numEntries + 1)
      · rw [if_pos short, if_pos (by rw [List.length_cons]; omega)]
        rfl
      · rw [if_neg short, if_neg (by rw [List.length_cons]; omega)]
        rfl

theorem connectionHandleReadDirectory_eq (last : VfsResult) (entries : List FileInfo) :
    connectionHandleReadDirectory ⟨entries, last⟩ =
      if entries.length < 61 then
        (if last = .ok ∨ last = .eof then .infos (entries.map appendFileInfo) else .result last, ⟨[], last⟩)
      else (.infos ((entries.take 61).map appendFileInfo), ⟨entries.drop 61, last⟩) := by
  have read : readDirectoryLoop last entries 0 =
      if entries.length < 61 then (last, entries.map appendFileInfo, [])
      else (.ok, (entries.take 61).map appendFileInfo, entries.drop 61) :=
    readDirectoryLoop_eq last entries (Nat.zero_le readdirChunkSize)
  unfold connectionHandleReadDirectory
  dsimp only
  rw [read]
  by_cases short : entries.length < 61
  · rw [if_pos short, if_pos short]
  · rw [if_neg short, if_neg short]
    rfl

/-- Between two calls the client has a list exactly when it stands in one. -/
def Session.Kept (s : Session) : Prop := s.handle.dirs = [] ↔ s.handle.current = []

theorem doReadDirectory_current {info : FileInfo} {current : List FileInfo} (kept : s.Kept)
    (here : s.handle.current = info :: current) :
    doReadDirectory s = ((.ok, some info), ⟨⟨if current = [] then [] else s.handle.dirs, current⟩, s.directory⟩) := by
  have inside : ¬ s.handle.dirs = [] := by
    intro none
    have never := kept.mp none
    rw [here] at never
    cases never
  rw [doReadDirectory, if_neg inside, takeCurrent, here]

/-- A reply with entries gives the first of them, and leaves the client in the others. -/
theorem doReadDirectory_infos {info : FileInfo} {list : List FileInfo} {directory : Directory}
    (outside : s.handle.dirs = [])
    (replied : connectionHandleReadDirectory s.directory = (.infos ((info :: list).map appendFileInfo), directory)) :
    doReadDirectory s = ((.ok, some (transmit info)),
      ⟨⟨if list.map transmit = [] then [] else (info :: list).map transmit, list.map transmit⟩, directory⟩) := by
  have decoded : ((info :: list).map appendFileInfo).map getFileInfo = (info :: list).map transmit := by
    rw [List.map_map]
    rfl
  rw [doReadDirectory, if_pos outside, replied]
  dsimp only
  rw [decoded, if_neg (by simp), takeCurrent]
  rfl

theorem doReadDirectory_none {directory : Directory} (outside : s.handle.dirs = [])
    (replied : connectionHandleReadDirectory s.directory = (.infos [], directory)) :
    doReadDirectory s = ((.eof, none), ⟨⟨[], []⟩, directory⟩) := by
  rw [doReadDirectory, if_pos outside, replied]
  rfl

theorem doReadDirectory_result {result : VfsResult} {directory : Directory} (outside : s.handle.dirs = [])
    (replied : connectionHandleReadDirectory s.directory = (.result result, directory)) :
    doReadDirectory s = ((result, none), ⟨s.handle, directory⟩) := by
  rw [doReadDirectory, if_pos outside, replied]

/-- What the client is still to get: the rest of its list, and then what is left in the daemon. -/
def Session.remaining (s : Session) : Directory :=
  ⟨s.handle.current ++ s.directory.entries.map transmit, s.directory.last⟩

/-- An error that is not EOF comes just behind a chunk. -/
def Session.Even (s : Session) : Prop := s.directory.last = .eof ∨ 61 ∣ s.directory.entries.length

/-- The next call gives what is due, unless the daemon drops the start of a chunk for an error. -/
theorem doReadDirectory_step (kept : s.Kept) (failed : s.directory.last ≠ .ok) :
    ((doReadDirectory s).2.Kept ∧ (doReadDirectory s).2.directory.last = s.directory.last ∧
      (doReadDirectory s).1 = s.remaining.readNext ∧ (doReadDirectory s).2.remaining = s.remaining.rest ∧
      ((doReadDirectory s).2.Even ↔ s.Even)) ∨
    (doReadDirectory s).1 = (s.directory.last, none) ∧ s.remaining.readNext.1 = .ok ∧ ¬ s.Even := by
  obtain ⟨⟨dirs, current⟩, ⟨entries, last⟩⟩ := s
  cases current with
  | cons info current =>
    left
    have read := doReadDirectory_current kept rfl
    rw [read]
    refine ⟨?_, rfl, rfl, rfl, Iff.rfl⟩
    by_cases none : current = []
    · rw [if_pos none]
      exact ⟨fun _ => none, fun _ => rfl⟩
    · rw [if_neg none]
      constructor
      · intro never
        cases kept.mp never
      · intro never
        exact absurd never none
  | nil =>
    have outside : dirs = [] := kept.mpr rfl
    have reply := connectionHandleReadDirectory_eq last entries
    have chunk : ∀ {info : FileInfo} {list : List FileInfo}, Session.Kept
        ⟨⟨if list.map transmit = [] then [] else (info :: list).map transmit, list.map transmit⟩,
          ⟨entries, last⟩⟩ := by
      intro info list
      by_cases none : list.map transmit = []
      · rw [if_pos none, none]
        exact Iff.rfl
      · rw [if_neg none]
        constructor
        · intro never
          cases never
        · intro never
          exact absurd never none
    by_cases short : entries.length < 61
    · rw [if_pos short] at reply
      by_cases eof : last = .eof
      · left
        rw [if_pos (Or.inr eof)] at reply
        cases entries with
        | nil =>
          rw [doReadDirectory_none outside reply]
          refine ⟨Iff.rfl, rfl, ?_, rfl, Iff.rfl⟩
          rw [← eof]
          rfl
        | cons info list =>
          rw [doReadDirectory_infos outside reply]
          refine ⟨chunk, rfl, rfl, ?_, ?_⟩
          · show Directory.mk (list.map transmit ++ [].map transmit) last = ⟨_, last⟩
            rw [List.map_nil, List.append_nil]
            rfl
          · exact ⟨fun _ => Or.inl eof, fun _ => Or.inl eof⟩
      · rw [if_neg (fun both => both.elim failed eof)] at reply
        rw [doReadDirectory_result outside reply]
        cases entries with
        | nil => exact Or.inl ⟨kept, rfl, rfl, rfl, Iff.rfl⟩
        | cons info list =>
          refine Or.inr ⟨rfl, rfl, ?_⟩
          rintro (never | never)
          · exact eof never
          · have whole : 61 ≤ (info :: list).length := Nat.le_of_dvd (by simp) never
            have small : (info :: list).length < 61 := short
            omega
    · left
      rw [if_neg short] at reply
      obtain ⟨info, list, first⟩ : ∃ info list, entries.take 61 = info :: list := by
        cases taken : entries.take 61 with
        | nil =>
          have length := congrArg List.length taken
          rw [List.length_take, List.length_nil] at length
          omega
        | cons info list => exact ⟨info, list, rfl⟩
      rw [first] at reply
      rw [doReadDirectory_infos outside reply]
      have whole : entries = info :: list ++ entries.drop 61 := by
        rw [← first, List.take_append_drop]
      refine ⟨chunk, rfl, ?_, ?_, ?_⟩
      · show _ = Directory.readNext ⟨[] ++ entries.map transmit, last⟩
        rw [whole]
        rfl
      · show Directory.mk (list.map transmit ++ (entries.drop 61).map transmit) last =
          Directory.rest ⟨[] ++ entries.map transmit, last⟩
        rw [← List.map_append]
        conv_rhs => rw [whole]
        rfl
      · show last = .eof ∨ 61 ∣ (entries.drop 61).length ↔ last = .eof ∨ 61 ∣ entries.length
        have same : 61 ∣ entries.length - 61 ↔ 61 ∣ entries.length := by omega
        rw [List.length_drop, same]

/-- The listings agree exactly where an error other than EOF does not cut a chunk short. -/
theorem Session.agrees_iff (kept : s.Kept) (failed : s.directory.last ≠ .ok) : s.Agrees s.remaining ↔ s.Even := by
  constructor
  · -- induction on what is still to be got
    intro agrees
    generalize due : s.remaining.entries.length = size
    induction size generalizing s with
    | zero =>
      right
      have none : s.directory.entries = [] := by
        have whole := List.eq_nil_of_length_eq_zero due
        simpa using (List.append_eq_nil_iff.mp whole).2
      rw [none]
      exact Nat.dvd_zero 61
    | succ size ih =>
      rcases doReadDirectory_step kept failed with ⟨keeps, last, -, remaining, even⟩ | ⟨dropped, held, -⟩
      · rw [← even]
        apply ih keeps (last ▸ failed)
        · rw [remaining]
          exact fun n => agrees (n + 1)
        · rw [remaining]
          show s.remaining.entries.tail.length = size
          rw [List.length_tail, due]
          rfl
      · have first : (doReadDirectory s).1 = s.remaining.readNext := agrees 0
        rw [← first, dropped] at held
        exact absurd held failed
  · intro even n
    induction n generalizing s with
    | zero =>
      rcases doReadDirectory_step kept failed with ⟨-, -, result, -, -⟩ | ⟨-, -, never⟩
      · exact result
      · exact absurd even never
    | succ n ih =>
      rcases doReadDirectory_step kept failed with ⟨keeps, last, -, remaining, same⟩ | ⟨-, -, never⟩
      · show (doReadDirectory s).2.result n = s.remaining.rest.result n
        rw [← remaining]
        exact ih keeps (last ▸ failed) (same.mpr even)
      · exact absurd even never

/-- A listing through the daemon is the direct listing exactly if it ends with EOF, or with another error
just behind a full chunk. -/
theorem daemonListing_iff (entries : List FileInfo) {last : VfsResult} (failed : last ≠ .ok) :
    Session.Agrees ⟨directoryHandleNew, ⟨entries, last⟩⟩ ⟨entries.map transmit, last⟩ ↔
      last = .eof ∨ 61 ∣ entries.length :=
  Session.agrees_iff (s := ⟨directoryHandleNew, ⟨entries, last⟩⟩) Iff.rfl failed

def someFile : FileInfo :=
  { name := some (ascii "a"), validFields := 1, type := 1, permissions := 0, flags := 0, device := 0, inode := 0,
    linkCount := 0, uid := 0, gid := 0, size := 0, blockCount := 0, ioBlockSize := 0, atime := 0, mtime := 0,
    ctime := 0, symlinkName := none, mimeType := none, selinuxContext := none }

theorem daemonListing_iff_some : Session.Agrees ⟨directoryHandleNew, ⟨List.replicate 123 someFile, .eof⟩⟩
    ⟨(List.replicate 123 someFile).map transmit, .eof⟩ :=
  (daemonListing_iff (List.replicate 123 someFile) (by decide)).mpr (Or.inl rfl)

/-- One file, and then an error: the file is never seen. -/
theorem daemonListing_dropped :
    ¬ Session.Agrees ⟨directoryHandleNew, ⟨[someFile], .io⟩⟩ ⟨[someFile].map transmit, .io⟩ := by
  intro agrees
  have first := congrArg Prod.fst (agrees 0)
  cases first

end Listing

end GnomeVfs.Daemon
