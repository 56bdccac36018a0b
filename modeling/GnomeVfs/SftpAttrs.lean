import GnomeVfs.SftpCodec

/- The attributes of a file in a message: what is read of a block, and where the reader stops. -/
namespace GnomeVfs.Sftp.Wire

/-- An ATTRS block of version 3 of the protocol. -/
structure AttrsBlock where
  size : Option UInt64
  uidgid : Option (UInt32 × UInt32)
  permissions : Option UInt32
  times : Option (UInt32 × UInt32)
  extended : Option (List (Bytes × Bytes))
  deriving DecidableEq

def flagsOf (size uidgid permissions times extended : Bool) : UInt32 :=
  (if size then attrSize else 0) ||| (if uidgid then attrUidgid else 0) ||| (if permissions then attrPermissions else 0) |||
    (if times then attrAcmodtime else 0) ||| if extended then attrExtended else 0

def AttrsBlock.flags (a : AttrsBlock) : UInt32 :=
  flagsOf a.size.isSome a.uidgid.isSome a.permissions.isSome a.times.isSome a.extended.isSome

def wordBytes (word : UInt32) : Bytes := BigEndian.encode 4 word.toNat

def pairBytes (pair : UInt32 × UInt32) : Bytes := wordBytes pair.1 ++ wordBytes pair.2

def sizeBytes (size : UInt64) : Bytes := BigEndian.encode 8 size.toNat

/-- The extended pairs behind their number. -/
def extendedBytes (pairs : List (Bytes × Bytes)) : Bytes :=
  wordBytes (UInt32.ofNat pairs.length) ++ pairs.flatMap fun pair => lengthPrefixed pair.1 ++ lengthPrefixed pair.2

/-- The bytes of a part that may be left out. -/
def partBytes {α : Type} (bytes : α → Bytes) (part : Option α) : Bytes := part.elim [] bytes

/-- The block up to the extended pairs. -/
def AttrsBlock.knownBytes (a : AttrsBlock) : Bytes :=
  wordBytes a.flags ++ (partBytes sizeBytes a.size ++ (partBytes pairBytes a.uidgid ++ (partBytes wordBytes a.permissions ++
    partBytes pairBytes a.times)))

def AttrsBlock.bytes (a : AttrsBlock) : Bytes := a.knownBytes ++ partBytes extendedBytes a.extended

/-- What a reader keeps of a block. -/
def FileInfo.withAttrs (info : FileInfo) (a : AttrsBlock) : FileInfo :=
  let info := { info with validFields := [] }
  let info := a.size.elim info fun size => { info with validFields := info.validFields ++ [.size], size := size }
  let info := a.permissions.elim info fun permissions => { info with
    validFields := info.validFields ++ [.permissions, .type, .flags]
    permissions := permissions
    type := typeOfPermissions permissions
    symlinkFlag := decide (typeOfPermissions permissions = .symbolicLink) }
  let info := a.times.elim info fun times => { info with
    validFields := info.validFields ++ [.atime, .mtime]
    atime := timeOfBits times.1
    mtime := timeOfBits times.2 }
  { info with validFields := info.validFields ++ [.ioBlockSize], ioBlockSize := defaultReqLen * maxReq }

theorem flagsOf_and (size uidgid permissions times extended : Bool) :
    (flagsOf size uidgid permissions times extended &&& attrSize ≠ 0 ↔ size = true) ∧
      (flagsOf size uidgid permissions times extended &&& attrUidgid ≠ 0 ↔ uidgid = true) ∧
      (flagsOf size uidgid permissions times extended &&& attrPermissions ≠ 0 ↔ permissions = true) ∧
      (flagsOf size uidgid permissions times extended &&& attrAcmodtime ≠ 0 ↔ times = true) := by
  revert size uidgid permissions times extended
  decide

section Reading

variable {b : Buffer} {flags : UInt32} {rest : Bytes} (stale : Nat → UInt8) (info : FileInfo)

theorem readSize_eq {size : Option UInt64} (told : flags &&& attrSize ≠ 0 ↔ size.isSome = true)
    (here : b.ahead = partBytes sizeBytes size ++ rest) :
    readSize stale flags (info, b) = (size.elim info fun size =>
      { info with validFields := info.validFields ++ [.size], size := size }, b.advance (partBytes sizeBytes size).length) ∧
      (b.advance (partBytes sizeBytes size).length).ahead = rest := by
  refine ⟨?_, Buffer.ahead_advance here⟩
  cases size with
  | none => exact if_neg (by simpa using told)
  | some size =>
    rw [readSize, if_pos (told.mpr rfl)]
    dsimp only
    rw [bufferReadGint64_eq stale here, partBytes, Option.elim_some, Option.elim_some, sizeBytes, BigEndian.length_encode]

theorem skipUidgid_eq {uidgid : Option (UInt32 × UInt32)} (told : flags &&& attrUidgid ≠ 0 ↔ uidgid.isSome = true)
    (here : b.ahead = partBytes pairBytes uidgid ++ rest) :
    skipUidgid stale flags (info, b) = (info, b.advance (partBytes pairBytes uidgid).length) ∧
      (b.advance (partBytes pairBytes uidgid).length).ahead = rest := by
  refine ⟨?_, Buffer.ahead_advance here⟩
  cases uidgid with
  | none => exact if_neg (by simpa using told)
  | some pair =>
    rw [partBytes, Option.elim_some, pairBytes, wordBytes, wordBytes, List.append_assoc] at here
    rw [skipUidgid, if_pos (told.mpr rfl)]
    dsimp only
    rw [bufferReadGint32_eq stale here, bufferReadGint32_eq stale (Buffer.ahead_word here), Buffer.advance_advance, partBytes,
      Option.elim_some, pairBytes, List.length_append, wordBytes, wordBytes, BigEndian.length_encode,
      BigEndian.length_encode]

theorem readPermissions_eq {permissions : Option UInt32} (told : flags &&& attrPermissions ≠ 0 ↔ permissions.isSome = true)
    (here : b.ahead = partBytes wordBytes permissions ++ rest) :
    readPermissions stale flags (info, b) = (permissions.elim info fun permissions => { info with
        validFields := info.validFields ++ [.permissions, .type, .flags]
        permissions := permissions
        type := typeOfPermissions permissions
        symlinkFlag := decide (typeOfPermissions permissions = .symbolicLink) },
      b.advance (partBytes wordBytes permissions).length) ∧
      (b.advance (partBytes wordBytes permissions).length).ahead = rest := by
  refine ⟨?_, Buffer.ahead_advance here⟩
  cases permissions with
  | none => exact if_neg (by simpa using told)
  | some permissions =>
    rw [readPermissions, if_pos (told.mpr rfl)]
    dsimp only
    rw [bufferReadGint32_eq stale here, partBytes, Option.elim_some, Option.elim_some, wordBytes, BigEndian.length_encode]

theorem readTimes_eq {times : Option (UInt32 × UInt32)} (told : flags &&& attrAcmodtime ≠ 0 ↔ times.isSome = true)
    (here : b.ahead = partBytes pairBytes times ++ rest) :
    readTimes stale flags (info, b) = (times.elim info fun times => { info with
        validFields := info.validFields ++ [.atime, .mtime]
        atime := timeOfBits times.1
        mtime := timeOfBits times.2 }, b.advance (partBytes pairBytes times).length) ∧
      (b.advance (partBytes pairBytes times).length).ahead = rest := by
  refine ⟨?_, Buffer.ahead_advance here⟩
  cases times with
  | none => exact if_neg (by simpa using told)
  | some pair =>
    rw [partBytes, Option.elim_some, pairBytes, wordBytes, wordBytes, List.append_assoc] at here
    rw [readTimes, if_pos (told.mpr rfl)]
    dsimp only
    rw [bufferReadGint32_eq stale here, bufferReadGint32_eq stale (Buffer.ahead_word here), Buffer.advance_advance, partBytes,
      Option.elim_some, Option.elim_some, pairBytes, List.length_append, wordBytes, wordBytes, BigEndian.length_encode,
      BigEndian.length_encode]

theorem bufferReadFileInfo_eq {a : AttrsBlock} (here : b.ahead = a.knownBytes ++ rest) :
    bufferReadFileInfo stale b info = (info.withAttrs a, b.advance a.knownBytes.length) := by
  obtain ⟨toldSize, toldUidgid, toldPermissions, toldTimes⟩ := flagsOf_and a.size.isSome a.uidgid.isSome
    a.permissions.isSome a.times.isSome a.extended.isSome
  simp only [AttrsBlock.knownBytes, List.append_assoc] at here
  have read := bufferReadGint32_eq stale here
  obtain ⟨size, afterSize⟩ := readSize_eq stale { info with validFields := [] } toldSize (Buffer.ahead_word here)
  obtain ⟨uidgid, afterUidgid⟩ := skipUidgid_eq stale _ toldUidgid afterSize
  obtain ⟨permissions, afterPermissions⟩ := readPermissions_eq stale _ toldPermissions afterUidgid
  obtain ⟨times, -⟩ := readTimes_eq stale _ toldTimes afterPermissions
  rw [bufferReadFileInfo, read]
  dsimp only
  rw [AttrsBlock.flags, size, uidgid, permissions, times]
  refine Prod.ext rfl ?_
  simp only [Buffer.advance_advance, AttrsBlock.knownBytes, wordBytes, BigEndian.length_encode, List.length_append,
    Nat.add_assoc]

/-- Exactly a block without the flag `SSH2_FILEXFER_ATTR_EXTENDED` is read to its end: the number of the
extended pairs is left, and so are the pairs. -/
theorem attrsBlock_consumed_iff {a : AttrsBlock} (here : b.ahead = a.bytes ++ rest) :
    (bufferReadFileInfo stale b info).2.readPtr = b.readPtr + a.bytes.length ↔ a.extended = none := by
  rw [AttrsBlock.bytes, List.append_assoc] at here
  rw [bufferReadFileInfo_eq stale info here, Buffer.advance_readPtr, AttrsBlock.bytes, List.length_append]
  cases a.extended with
  | none => simp [partBytes]
  | some pairs =>
    have left : 4 ≤ (extendedBytes pairs).length := by
      rw [extendedBytes, List.length_append, wordBytes, BigEndian.length_encode]
      omega
    rw [partBytes, Option.elim_some]
    constructor
    · intro same
      omega
    · exact fun never => absurd never (Option.some_ne_none pairs)

end Reading

/-- A directory whose server tells one attribute of its own. -/
def extendedBlock : AttrsBlock := ⟨some 7, none, some 0x41ED, none, some [(ascii "acl@local", [1, 2])]⟩

def plainBlock : AttrsBlock := { extendedBlock with extended := none }

def blankInfo : FileInfo := ⟨[], .unknown, 0, false, 0, 0, 0, 0⟩

theorem attrsBlock_consumed_iff_plain :
    (messageOf (plainBlock.bytes ++ [9])).ahead = plainBlock.bytes ++ [9] ∧
      (bufferReadFileInfo (fun _ => 0) (messageOf (plainBlock.bytes ++ [9])) blankInfo).2.readPtr =
        headerSize + plainBlock.bytes.length := by
  have here : (messageOf (plainBlock.bytes ++ [9])).ahead = plainBlock.bytes ++ [9] := rfl
  exact ⟨here, (attrsBlock_consumed_iff (fun _ => 0) blankInfo here).mpr rfl⟩

/-- The reader stops 23 bytes in front of the end of the block. -/
theorem attrsBlock_not_consumed :
    (bufferReadFileInfo (fun _ => 0) (messageOf (extendedBlock.bytes ++ [9])) blankInfo).2.readPtr + 23 =
      headerSize + extendedBlock.bytes.length := by
  decide

/-- An entry of a `SSH2_FXP_NAME` message. -/
structure WireEntry where
  filename : Bytes
  longname : Bytes
  attrs : AttrsBlock

section RoundTrip

/-- What `buffer_write_file_info` puts into a message. -/
def maskBlock (info : FileInfo) (mask : SetFileInfoMask) : AttrsBlock where
  size := none
  uidgid := none
  permissions := if mask.permissions then some (info.permissions &&& 0x1FF) else none
  times := if mask.time then some (bitsOfTime info.atime, bitsOfTime info.mtime) else none
  extended := none

/-- What is selected by a mask, and that nothing else is said to be valid. -/
structure Selects (info : FileInfo) (mask : SetFileInfoMask) (read : FileInfo) : Prop where
  permissions : if mask.permissions then .permissions ∈ read.validFields ∧ read.permissions = info.permissions &&& 0x1FF
    else .permissions ∉ read.validFields
  times : if mask.time then .atime ∈ read.validFields ∧ .mtime ∈ read.validFields ∧ read.atime = gint info.atime ∧
    read.mtime = gint info.mtime else .atime ∉ read.validFields ∧ .mtime ∉ read.validFields

variable {b c : Buffer} {info into : FileInfo} {mask : SetFileInfoMask}

theorem timeOfBits_bitsOfTime (time : Int) : timeOfBits (bitsOfTime time) = gint time := by
  rw [timeOfBits, bitsOfTime, Int32.toInt32_toUInt32, Int32.toInt_ofInt]
  rfl

theorem maskBlock_selects (info into : FileInfo) (mask : SetFileInfoMask) :
    Selects info mask (into.withAttrs (maskBlock info mask)) := by
  obtain ⟨permissions, time⟩ := mask
  constructor <;> cases permissions <;> cases time <;>
    simp [maskBlock, FileInfo.withAttrs, timeOfBits_bitsOfTime]

theorem Wrote.refl (fits : b.Fits) : Wrote b [] b := ⟨(List.append_nil _).symm, rfl, fits⟩

theorem attrFlags_eq (mask : SetFileInfoMask) :
    mask.attrFlags = flagsOf false false mask.permissions mask.time false := by
  obtain ⟨permissions, time⟩ := mask
  revert permissions time
  decide

theorem maskBlock_bytes (info : FileInfo) (mask : SetFileInfoMask) : (maskBlock info mask).bytes =
    wordBytes mask.attrFlags ++
      (partBytes wordBytes (maskBlock info mask).permissions ++ partBytes pairBytes (maskBlock info mask).times) := by
  have flags : (maskBlock info mask).flags = mask.attrFlags := by
    rw [attrFlags_eq, AttrsBlock.flags]
    obtain ⟨permissions, time⟩ := mask
    cases permissions <;> cases time <;> rfl
  rw [AttrsBlock.bytes, AttrsBlock.knownBytes, flags]
  exact List.append_nil _

theorem writePermissions_some (fits : b.Fits) (room : b.writePtr + 4 ≤ maxAlloc) :
    ∃ c, writePermissions b info mask = some c ∧ Wrote b (partBytes wordBytes (maskBlock info mask).permissions) c ∧
      c.writePtr ≤ b.writePtr + 4 := by
  rw [writePermissions, maskBlock]
  split
  · obtain ⟨c, permissions, wrote⟩ := bufferWriteGint32_some fits (info.permissions &&& 0x1FF) room
    have place := wrote.writePtr
    rw [BigEndian.length_encode] at place
    exact ⟨c, permissions, wrote, by omega⟩
  · exact ⟨b, rfl, .refl fits, by omega⟩

theorem writeTimes_some (fits : b.Fits) (room : b.writePtr + 8 ≤ maxAlloc) :
    ∃ c, writeTimes b info mask = some c ∧ Wrote b (partBytes pairBytes (maskBlock info mask).times) c := by
  rw [writeTimes, maskBlock]
  split
  · obtain ⟨c, atime, first⟩ := bufferWriteGint32_some fits (bitsOfTime info.atime) (by omega)
    have place := first.writePtr
    rw [BigEndian.length_encode] at place
    obtain ⟨d, mtime, second⟩ := bufferWriteGint32_some first.fits (bitsOfTime info.mtime) (by omega)
    refine ⟨d, ?_, first.trans second⟩
    rw [atime]
    exact mtime
  · exact ⟨b, rfl, .refl fits⟩

theorem bufferWriteFileInfo_some (fits : b.Fits) (room : b.writePtr + 16 ≤ maxAlloc) :
    ∃ c, bufferWriteFileInfo b info mask = some c ∧ Wrote b (maskBlock info mask).bytes c := by
  obtain ⟨c, flags, wroteFlags⟩ := bufferWriteGint32_some fits mask.attrFlags (by omega)
  have place := wroteFlags.writePtr
  rw [BigEndian.length_encode] at place
  obtain ⟨d, permissions, wrotePermissions, near⟩ := @writePermissions_some c info mask wroteFlags.fits (by omega)
  obtain ⟨e, times, wroteTimes⟩ := @writeTimes_some d info mask wrotePermissions.fits (by omega)
  refine ⟨e, ?_, ?_⟩
  · rw [bufferWriteFileInfo, flags]
    simp only [Option.bind_eq_bind, Option.bind_some]
    rw [permissions]
    exact times
  · rw [maskBlock_bytes]
    exact wroteFlags.trans (wrotePermissions.trans wroteTimes)

theorem Buffer.Fits.bounded (fits : b.Fits) : b.Bounded := ⟨fits.header, fits.ordered, fits.inside⟩

theorem Buffer.Fits.advance (fits : b.Fits) {n : Nat} (there : b.readPtr + n ≤ b.writePtr) : (b.advance n).Fits := by
  refine ⟨?_, there, fits.inside, fits.doubled⟩
  have header := fits.header
  show headerSize ≤ b.readPtr + n
  omega

/-- Whatever a sequence of values is, as long as the message with its header has room in the largest
buffer: what is written is read back, value for value, and every call of the way there and of the way
back leaves the pointers where they belong. The attributes of a file are read back as the mask selects
them, to the last byte that has been written for them. -/
theorem message_round_trip (stale heap : Nat → UInt8) :
    (∀ values : List Value, (∀ value ∈ values, value.Proper) → headerSize + (bytesOf values).length ≤ maxAlloc →
      ∃ b c, writeValues bufferInit values = some b ∧
        readValues stale heap b (values.map Value.kind) = some (values, c) ∧ c.readPtr = c.writePtr ∧
        ∀ front, front <+: values →
          (∃ d, writeValues bufferInit front = some d ∧ d.Bounded) ∧
          ∃ d, readValues stale heap b (front.map Value.kind) = some (front, d) ∧ d.Bounded) ∧
    (∀ (b : Buffer) (info into : FileInfo) (mask : SetFileInfoMask), b.Fits → b.writePtr + 16 ≤ maxAlloc →
      ∃ c, bufferWriteFileInfo b info mask = some c ∧ c.Bounded ∧
        Selects info mask (bufferReadFileInfo stale { c with readPtr := b.writePtr } into).1 ∧
        (bufferReadFileInfo stale { c with readPtr := b.writePtr } into).2.readPtr = c.writePtr) := by
  constructor
  · intro values proper room
    obtain ⟨b, wrote, there⟩ := @writeValues_some bufferInit values bufferInit_fits room
    have start : b.readPtr = headerSize := there.readPtr
    have stop : b.writePtr = headerSize + (bytesOf values).length := there.writePtr
    have ahead : b.ahead = bytesOf values := there.ahead 0 rfl
    have back : ∀ front rest : List Value, values = front ++ rest →
        readValues stale heap b (front.map Value.kind) = some (front, b.advance (bytesOf front).length) ∧
          b.readPtr + (bytesOf front).length ≤ b.writePtr := by
      rintro front rest rfl
      have bytes : bytesOf (front ++ rest) = bytesOf front ++ bytesOf rest := List.flatMap_append
      rw [bytes, List.length_append] at room stop
      refine ⟨?_, by omega⟩
      exact readValues_eq stale heap (fun value member => proper value (List.mem_append_left rest member)) (by omega)
        (ahead.trans bytes)
    obtain ⟨all, -⟩ := back values [] (List.append_nil _).symm
    refine ⟨b, b.advance (bytesOf values).length, wrote, all, ?_, ?_⟩
    · show b.readPtr + (bytesOf values).length = b.writePtr
      omega
    · rintro front ⟨rest, rfl⟩
      obtain ⟨read, inside⟩ := back front rest rfl
      have bytes : bytesOf (front ++ rest) = bytesOf front ++ bytesOf rest := List.flatMap_append
      rw [bytes, List.length_append] at room
      obtain ⟨d, first, partly⟩ := @writeValues_some bufferInit front bufferInit_fits (by
        show headerSize + (bytesOf front).length ≤ maxAlloc
        omega)
      exact ⟨⟨d, first, partly.fits.bounded⟩, _, read, (there.fits.advance inside).bounded⟩
  · intro b info into mask fits room
    obtain ⟨c, wrote, there⟩ := @bufferWriteFileInfo_some b info mask fits room
    have ahead : ({ c with readPtr := b.writePtr } : Buffer).ahead = (maskBlock info mask).knownBytes ++ [] := by
      rw [Buffer.ahead, there.written]
      exact List.drop_left
    refine ⟨c, wrote, there.fits.bounded, ?_, ?_⟩
    · rw [bufferReadFileInfo_eq stale into ahead]
      exact maskBlock_selects info into mask
    · rw [bufferReadFileInfo_eq stale into ahead, there.writePtr]
      show b.writePtr + (maskBlock info mask).knownBytes.length = b.writePtr + (maskBlock info mask).bytes.length
      rw [AttrsBlock.bytes, List.length_append]
      rfl

theorem message_round_trip_values :
    ∃ b c, writeValues bufferInit [.gchar 5, .string (ascii "name"), .gint64 9] = some b ∧
      readValues (fun _ => 0) (fun _ => 0) b [.gchar, .string, .gint64] =
        some ([.gchar 5, .string (ascii "name"), .gint64 9], c) ∧ c.readPtr = c.writePtr := by
  obtain ⟨b, c, wrote, read, whole, -⟩ := (message_round_trip (fun _ => 0) fun _ => 0).1
    [.gchar 5, .string (ascii "name"), .gint64 9] (by decide) (by decide)
  exact ⟨b, c, wrote, read, whole⟩

/-- A block of less than 2^30 bytes with its length. -/
def longBlock : Value := .block (List.replicate (2 ^ 30 - 5) 0)

/-- There is no room for it behind the header: the doubled size does not fit into a `gint`. -/
theorem message_too_long : (bytesOf [longBlock]).length < 2 ^ 30 ∧ writeValues bufferInit [longBlock] = none := by
  have length : (List.replicate (2 ^ 30 - 5) (0 : UInt8)).length = 2 ^ 30 - 5 := List.length_replicate
  constructor
  · rw [bytesOf, List.flatMap_singleton, longBlock, Value.bytes, length_lengthPrefixed, length]
    decide
  · obtain ⟨c, word, wrote⟩ := bufferWriteGint32_some bufferInit_fits (UInt32.ofNat (2 ^ 30 - 5)) (by decide)
    have place : c.writePtr = 8 := wrote.writePtr
    have whole : (UInt32.ofNat (2 ^ 30 - 5)).toNat = 2 ^ 30 - 5 := by decide
    have full : bufferWrite c (List.replicate (2 ^ 30 - 5) 0) = none := by
      apply bufferWrite_none wrote.fits
      rw [place, length, maxAlloc]
      decide
    rw [writeValues, List.foldlM_cons, longBlock, Value.write, length, bufferWriteBlock, word]
    simp only [Option.bind_eq_bind, Option.bind_some]
    rw [whole, List.take_of_length_le (Nat.le_of_eq length), full]
    rfl

end RoundTrip

end GnomeVfs.Sftp.Wire
