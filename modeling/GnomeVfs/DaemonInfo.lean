import GnomeVfs.DaemonListing

/- The fields of a file info that arrive as they were sent to the daemon or by it. -/
namespace GnomeVfs.Daemon

variable {Acl : Type}

/-- A file info with its access control list, which is not sent. -/
structure Info (Acl : Type) where
  info : FileInfo
  acl : Option Acl

/-- `gnome_vfs_daemon_message_iter_append_file_info`, and `gnome_vfs_daemon_message_iter_get_file_info` of it. -/
def Info.transmit (sent : Info Acl) : Info Acl := ⟨Daemon.transmit sent.info, none⟩

/-- `GnomeVFSFileInfoFields`. -/
inductive Field where
  | type | permissions | flags | device | inode | linkCount | size | blockCount | ioBlockSize | atime | mtime | ctime
  | symlinkName | mimeType | access | ids | acl | selinuxContext
  deriving DecidableEq

/-- The bit of a field in `valid_fields`. -/
def Field.bit : Field → Nat
  | .type => 0
  | .permissions => 1
  | .flags => 2
  | .device => 3
  | .inode => 4
  | .linkCount => 5
  | .size => 6
  | .blockCount => 7
  | .ioBlockSize => 8
  | .atime => 9
  | .mtime => 10
  | .ctime => 11
  | .symlinkName => 12
  | .mimeType => 13
  | .access => 14
  | .ids => 15
  | .acl => 16
  | .selinuxContext => 17

def Field.marked (field : Field) (info : Info Acl) : Bool := info.info.validFields.getLsbD field.bit

/-- What a field stands for is the same. The access bits are among the permissions. -/
def Field.Same (field : Field) (a b : Info Acl) : Prop :=
  match field with
  | .type => a.info.type = b.info.type
  | .permissions | .access => a.info.permissions = b.info.permissions
  | .flags => a.info.flags = b.info.flags
  | .device => a.info.device = b.info.device
  | .inode => a.info.inode = b.info.inode
  | .linkCount => a.info.linkCount = b.info.linkCount
  | .size => a.info.size = b.info.size
  | .blockCount => a.info.blockCount = b.info.blockCount
  | .ioBlockSize => a.info.ioBlockSize = b.info.ioBlockSize
  | .atime => a.info.atime = b.info.atime
  | .mtime => a.info.mtime = b.info.mtime
  | .ctime => a.info.ctime = b.info.ctime
  | .symlinkName => a.info.symlinkName = b.info.symlinkName
  | .mimeType => a.info.mimeType = b.info.mimeType
  | .ids => a.info.uid = b.info.uid ∧ a.info.gid = b.info.gid
  | .acl => a.acl = b.acl
  | .selinuxContext => a.info.selinuxContext = b.info.selinuxContext

/-- A number that is the value of a `gint32`. -/
def IsInt32 (x : BitVec 64) : Prop := -2 ^ 31 ≤ x.toInt ∧ x.toInt < 2 ^ 31

theorem signExtend_truncate_eq_iff (x : BitVec 64) : (x.truncate 32).signExtend 64 = x ↔ IsInt32 x := by
  have small := (x.truncate 32).isLt
  have low : (x.truncate 32).toNat = x.toNat % 2 ^ 32 := BitVec.toNat_setWidth 32 x
  rw [← BitVec.toInt_inj, BitVec.toInt_signExtend_of_le (by decide), IsInt32]
  rw [BitVec.toInt_eq_toNat_cond, BitVec.toInt_eq_toNat_cond, low]
  have large := x.isLt
  split <;> split <;> omega

/-- What of a marked field arrives: numbers of the width they are sent in, strings that are not empty, and nothing
of what is not sent. -/
def Field.Arrives (field : Field) (info : Info Acl) : Prop :=
  match field with
  | .device => IsInt32 info.info.device
  | .atime => IsInt32 info.info.atime
  | .mtime => IsInt32 info.info.mtime
  | .ctime => IsInt32 info.info.ctime
  | .ioBlockSize => info.info.ioBlockSize = 0
  | .symlinkName => info.info.symlinkName ≠ some []
  | .mimeType => info.info.mimeType ≠ some []
  | .acl => info.acl = none
  | .selinuxContext => info.info.selinuxContext = none
  | _ => True

/-- The target of a link is escaped on the way, and one that is not empty stays so. -/
theorem transmit_symlinkName {info : FileInfo} (proper : ∀ target, info.symlinkName = some target → (0 : UInt8) ∉ target) :
    (transmit info).symlinkName = info.symlinkName ↔ info.symlinkName ≠ some [] := by
  have arrived : (transmit info).symlinkName =
      (peekStringOrNull (appendStringOrNull (info.symlinkName.map escapePathString)) true).bind (unescapeString []) := rfl
  rw [arrived]
  cases linked : info.symlinkName with
  | none => exact ⟨fun _ => Option.some_ne_none _ |>.symm, fun _ => rfl⟩
  | some target =>
    have round : unescapeString [] (escapePathString target) = some target :=
      unescapeString_escapeStringInternal .path target (proper target linked)
    cases target with
    | nil => exact ⟨fun lost => absurd lost.symm (Option.some_ne_none _), fun other => absurd rfl other⟩
    | cons c rest =>
      have some_text : escapePathString (c :: rest) ≠ [] := fun empty => by
        rw [empty, unescapeString] at round
        exact absurd (Option.some.inj round) (List.cons_ne_nil c rest).symm
      have peeked : peekStringOrNull (appendStringOrNull ((some (c :: rest)).map escapePathString)) true =
          some (escapePathString (c :: rest)) := if_neg fun both => some_text both.2
      rw [peeked, Option.bind_some, round]
      exact ⟨fun _ same => absurd (Option.some.inj same) (List.cons_ne_nil c rest), fun _ => rfl⟩

theorem transmit_mimeType (info : FileInfo) : (transmit info).mimeType = info.mimeType ↔ info.mimeType ≠ some [] := by
  have arrived : (transmit info).mimeType = peekStringOrNull (appendStringOrNull info.mimeType) true := rfl
  rw [arrived]
  cases info.mimeType with
  | none => simp [peekStringOrNull, appendStringOrNull]
  | some mime =>
    cases mime with
    | nil => simp [peekStringOrNull, appendStringOrNull]
    | cons c rest => simp [peekStringOrNull, appendStringOrNull]

theorem same_iff_arrives {sent : Info Acl} (proper : ∀ target, sent.info.symlinkName = some target → (0 : UInt8) ∉ target)
    (field : Field) : field.Same sent.transmit sent ↔ field.Arrives sent := by
  cases field with
  | device => exact signExtend_truncate_eq_iff sent.info.device
  | atime => exact signExtend_truncate_eq_iff sent.info.atime
  | mtime => exact signExtend_truncate_eq_iff sent.info.mtime
  | ctime => exact signExtend_truncate_eq_iff sent.info.ctime
  | symlinkName => exact transmit_symlinkName proper
  | mimeType => exact transmit_mimeType sent.info
  | ioBlockSize => exact eq_comm
  | acl => exact eq_comm
  | selinuxContext => exact eq_comm
  | ids => exact ⟨fun _ => True.intro, fun _ => ⟨rfl, rfl⟩⟩
  | type => exact ⟨fun _ => True.intro, fun _ => rfl⟩
  | permissions => exact ⟨fun _ => True.intro, fun _ => rfl⟩
  | access => exact ⟨fun _ => True.intro, fun _ => rfl⟩
  | flags => exact ⟨fun _ => True.intro, fun _ => rfl⟩
  | inode => exact ⟨fun _ => True.intro, fun _ => rfl⟩
  | linkCount => exact ⟨fun _ => True.intro, fun _ => rfl⟩
  | size => exact ⟨fun _ => True.intro, fun _ => rfl⟩
  | blockCount => exact ⟨fun _ => True.intro, fun _ => rfl⟩

/-- An info arrives with its name and its valid fields, and with all that is marked in them just when each
marked field is one that arrives. -/
theorem info_survives_iff {sent : Info Acl} {name : Bytes} (named : sent.info.name = some name) (proper : (0 : UInt8) ∉ name)
    (proper' : ∀ target, sent.info.symlinkName = some target → (0 : UInt8) ∉ target) :
    (sent.transmit.info.name = sent.info.name ∧ sent.transmit.info.validFields = sent.info.validFields ∧
        ∀ field : Field, field.marked sent = true → field.Same sent.transmit sent) ↔
      ∀ field : Field, field.marked sent = true → field.Arrives sent := by
  constructor
  · rintro ⟨-, -, same⟩ field marked
    exact (same_iff_arrives proper' field).mp (same field marked)
  · intro arrives
    exact ⟨(transmit_name named proper).trans named.symm, rfl, fun field marked => (same_iff_arrives proper' field).mpr (arrives field marked)⟩

/-- A file whose modification time is known. -/
def modifiedAt (time : BitVec 64) : Info Unit where
  info :=
    { name := some (ascii "a"), validFields := 1 <<< 10, type := 0, permissions := 0, flags := 0, device := 0, inode := 0, linkCount := 0,
      uid := 0, gid := 0, size := 0, blockCount := 0, ioBlockSize := 0, atime := 0, mtime := time, ctime := 0, symlinkName := none,
      mimeType := none, selinuxContext := none }
  acl := none

theorem info_survives_iff_today :
    ((modifiedAt 1700000000).transmit.info.name = (modifiedAt 1700000000).info.name ∧
        (modifiedAt 1700000000).transmit.info.validFields = (modifiedAt 1700000000).info.validFields ∧
        ∀ field : Field, field.marked (modifiedAt 1700000000) = true → field.Same (modifiedAt 1700000000).transmit (modifiedAt 1700000000)) ↔
      ∀ field : Field, field.marked (modifiedAt 1700000000) = true → field.Arrives (modifiedAt 1700000000) :=
  @info_survives_iff Unit (modifiedAt 1700000000) (ascii "a") rfl (by decide) fun _ linked => absurd linked.symm (Option.some_ne_none _)

/-- A time from 2038 on comes back as one before 1970. -/
theorem late_time_lost : ¬ ∀ (sent : Info Unit) (name : Bytes), sent.info.name = some name → (0 : UInt8) ∉ name →
    (∀ target, sent.info.symlinkName = some target → (0 : UInt8) ∉ target) →
    sent.transmit.info.name = sent.info.name ∧ sent.transmit.info.validFields = sent.info.validFields ∧
      ∀ field : Field, field.marked sent = true → field.Same sent.transmit sent := by
  intro survives
  have same := (survives (modifiedAt (2 ^ 31)) (ascii "a") rfl (by decide) fun _ linked => absurd linked.symm (Option.some_ne_none _)).2.2
    .mtime (by decide)
  exact absurd same (by decide : ¬ (modifiedAt (2 ^ 31)).transmit.info.mtime = (modifiedAt (2 ^ 31)).info.mtime)

end GnomeVfs.Daemon
