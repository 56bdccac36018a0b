import GnomeVfs.CString
import GnomeVfs.Result
import GnomeVfs.Uri
import Mathlib.Data.List.Induction

/- Access control lists of local files, as `file-method-acl.c` reads and sets them with POSIX lists. -/
namespace GnomeVfs.PosixAcl

inductive Tag where
  | undefined | userObj | user | groupObj | group | mask | other
  deriving DecidableEq

/-- An entry of a POSIX list. -/
structure AclEntry where
  tag : Tag
  qualifier : UInt32
  read : Bool
  write : Bool
  execute : Bool
  deriving DecidableEq

inductive Perm where
  | read | write | execute
  deriving DecidableEq

inductive Kind where
  | null | user | group | other | mask
  deriving DecidableEq

/-- `GnomeVFSACE`. -/
structure Ace where
  kind : Kind
  id : Option Bytes
  perms : List Perm
  inherit : Bool
  negative : Bool
  deriving DecidableEq

/-- What `gnome_vfs_ace_equal` looks at. A missing id is an empty one. -/
def Ace.key (ace : Ace) : Kind × Bytes × Bool × Bool := (ace.kind, ace.id.getD [], ace.inherit, ace.negative)

def Ace.equal (a b : Ace) : Bool := a.key = b.key

/-- The permissions are copied to the first entry that is equal. -/
def copyPerms (ace : Ace) : List Ace → List Ace
  | [] => []
  | entry :: entries => if entry.equal ace then { entry with perms := ace.perms } :: entries else entry :: copyPerms ace entries

/-- `gnome_vfs_acl_set`. -/
def aclSet (acl : List Ace) (ace : Ace) : List Ace := if acl.any (·.equal ace) then copyPerms ace acl else ace :: acl

structure Account where
  name : Bytes
  id : UInt32

/-- The accounts of users and of groups. -/
structure System where
  passwd : List Account
  groups : List Account

/-- `%d` of an id, which is unsigned. -/
def printId (id : UInt32) : Bytes :=
  if id.toNat < 2 ^ 31 then decimal id.toNat else 45 :: decimal (2 ^ 32 - id.toNat)

/-- `uid_to_string` and `gid_to_string`. -/
def idToString (accounts : List Account) (id : UInt32) : Bytes :=
  ((accounts.find? fun account => account.id = id).map Account.name).getD (printId id)

/-- `string_to_uid` and `string_to_gid`: what is not found is 0. -/
def stringToId (accounts : List Account) (name : Bytes) : UInt32 :=
  ((accounts.find? fun account => account.name = name).map Account.id).getD 0

/-- `permset_to_perms`. -/
def permsetToPerms (entry : AclEntry) : List Perm :=
  (if entry.read then [.read] else []) ++ (if entry.write then [.write] else []) ++ if entry.execute then [.execute] else []

/-- The entry that one entry of a POSIX list is read as, if it is not passed over. -/
def showEntry (sys : System) (isDefault : Bool) (entry : AclEntry) : Option Ace :=
  let ace (kind : Kind) (id : Option Bytes) : Option Ace := some ⟨kind, id, permsetToPerms entry, isDefault, false⟩
  if entry.tag = .mask then none
  else if isDefault = false ∧ entry.tag ≠ .user ∧ entry.tag ≠ .group then none
  else
    match entry.tag with
    | .user => ace .user (some (idToString sys.passwd entry.qualifier))
    | .userObj => ace .user none
    | .group => ace .group (some (idToString sys.groups entry.qualifier))
    | .groupObj => ace .group none
    | .other => ace .other none
    | .mask => ace .other none
    | .undefined => ace .null none

/-- What is stored for a path, as `acl_get_file` gives it. -/
structure Store where
  access : Option (List AclEntry)
  default : Option (List AclEntry)
  isDirectory : Bool

/-- The entries in the order in which `posix_acl_read` comes to them. -/
def Store.shown (store : Store) (sys : System) : List Ace :=
  (store.access.getD []).filterMap (showEntry sys false) ++
    if store.isDirectory then (store.default.getD []).filterMap (showEntry sys true) else []

/-- The entries that `file_get_acl` leaves in the file information; without entries there is no list. -/
def fileGetAcl (sys : System) (store : Store) : Option (List Ace) :=
  if 0 < (store.shown sys).length then some ((store.shown sys).foldl aclSet []) else none

section Setting

inductive Errno where
  | enoent | einval | enosys | eacces | enametoolong | eperm | enospc | erofs | other

def aclerrnoToVfserror : Errno → VfsResult
  | .enoent | .einval => .badFile
  | .enosys => .notSupported
  | .eacces => .accessDenied
  | .enametoolong => .nameTooLong
  | .eperm => .notPermitted
  | .enospc => .noSpace
  | .erofs => .readOnlyFileSystem
  | .other => .generic

/-- The calls that can fail for one entry. -/
inductive Call where
  | createEntry | setTagType | setQualifier | getPermset | clone (tag : Tag) | calcMask

/-- The lists in memory. -/
structure Lists where
  access : List AclEntry
  default : Option (List AclEntry)

def undefinedId : UInt32 := 0xFFFFFFFF

/-- `find_entry`: there is no qualifier to be compared but for users and groups. -/
def findEntryFrom (type : Tag) (id : UInt32) : Nat → List AclEntry → Option Nat
  | _, [] => none
  | k, entry :: entries =>
    if entry.tag = type then
      if id = undefinedId then some k
      else if type ≠ .user ∧ type ≠ .group then none
      else if entry.qualifier = id then some k
      else findEntryFrom type id (k + 1) entries
    else findEntryFrom type id (k + 1) entries

def findEntry (acl : List AclEntry) (type : Tag) (id : UInt32) : Option Nat := findEntryFrom type id 0 acl

/-- `CMD_PERM_READ`, `CMD_PERM_WRITE` and `CMD_PERM_EXECUTE`, of which one is taken. -/
def cmdPerms (ace : Ace) : Nat :=
  if Perm.read ∈ ace.perms then 4 else if Perm.write ∈ ace.perms then 2 else if Perm.execute ∈ ace.perms then 1 else 0

def setPermset (perms : Nat) (entry : AclEntry) : AclEntry :=
  { entry with read := perms.testBit 2, write := perms.testBit 1, execute := perms.testBit 0 }

/-- `clone_entry`, whose result is not looked at. -/
def cloneEntry (fails : Bool) (source : List AclEntry) (sourceType : Tag) (target : List AclEntry) (targetType : Tag) : List AclEntry :=
  match (findEntry source sourceType undefinedId).bind (source[·]?) with
  | none => target
  | some entry => if fails then target else target ++ [{ entry with tag := targetType }]

/-- `acl_equiv_mode (acl, NULL) == 0`. -/
def isEquivMode (acl : List AclEntry) : Bool :=
  acl.length = 3 && [Tag.userObj, .groupObj, .other].all fun tag => acl.any (·.tag = tag)

/-- `acl_calc_mask`: the mask gets what the entries that it applies to have. -/
def calcMask (acl : List AclEntry) : List AclEntry :=
  let group := acl.filter fun entry => entry.tag = .user || entry.tag = .groupObj || entry.tag = .group
  let mask : AclEntry := ⟨.mask, undefinedId, group.any AclEntry.read, group.any AclEntry.write, group.any AclEntry.execute⟩
  if acl.any (·.tag = .mask) then acl.map fun entry => if entry.tag = .mask then mask else entry else acl ++ [mask]

variable (fails : Call → Option Errno)

/-- A call that can fail, and the result if it does. -/
def attempt (call : Call) : Except VfsResult Unit :=
  match fails call with
  | none => .ok ()
  | some errno => .error (aclerrnoToVfserror errno)

/-- A new entry, and where it is. A missing list is refused by the library. -/
def createEntry (acl : Option (List AclEntry)) (type : Tag) (id : UInt32) : Except VfsResult (List AclEntry × Nat) := do
  match acl with
  | none => .error (aclerrnoToVfserror .einval)
  | some acl => do
    attempt fails .createEntry
    attempt fails .setTagType
    attempt fails .setQualifier
    .ok (acl ++ [⟨type, id, false, false, false⟩], acl.length)

/-- The entry is looked up in the access list only, and created in the list that it belongs to. -/
def enterAce (lists : Lists) (ace : Ace) (type : Tag) (id : UInt32) : Except VfsResult Lists := do
  match findEntry lists.access type id with
  | some k => do
    attempt fails .getPermset
    .ok { lists with access := lists.access.modify k (setPermset (cmdPerms ace)) }
  | none =>
    if ace.inherit then do
      let (acl, k) ← createEntry fails lists.default type id
      attempt fails .getPermset
      .ok { lists with default := some (acl.modify k (setPermset (cmdPerms ace))) }
    else do
      let (acl, k) ← createEntry fails (some lists.access) type id
      attempt fails .getPermset
      .ok { lists with access := acl.modify k (setPermset (cmdPerms ace)) }

/-- An entry that the default list lacks is taken over. -/
def takeOver (lists : Lists) (tag : Tag) : Lists :=
  { lists with default := lists.default.map fun acl =>
      if findEntry acl tag undefinedId = none then cloneEntry (fails (.clone tag)).isSome lists.access tag acl tag else acl }

/-- "Fix it up". -/
def fixUp (lists : Lists) (isDefault : Bool) : Except VfsResult Lists := do
  let lists := if isDefault then takeOver fails (takeOver fails (takeOver fails lists .userObj) .groupObj) .other else lists
  if isEquivMode lists.access then .ok lists
  else do
    let access :=
      if findEntry lists.access .mask undefinedId = none then
        cloneEntry (fails (.clone .mask)).isSome lists.access .groupObj lists.access .mask
      else lists.access
    let lists := { lists with access := access }
    match isDefault, lists.default with
    | true, none => .error (aclerrnoToVfserror .einval)
    | true, some acl => do
      attempt fails .calcMask
      .ok { lists with default := some (calcMask acl) }
    | false, _ => do
      attempt fails .calcMask
      .ok { lists with access := calcMask lists.access }

/-- One turn of the loop. `unset` is what the variable `id` holds for an entry that has none, and `none` a lookup of a
name that is not there. -/
def setAce (sys : System) (unset : UInt32) (lists : Lists) (ace : Ace) : Option (Except VfsResult Lists) := do
  let enter (type : Tag) (id : UInt32) : Except VfsResult Lists := do fixUp fails (← enterAce fails lists ace type id) ace.inherit
  match ace.kind with
  | .user => some (enter .user (stringToId sys.passwd (← ace.id)))
  | .group => some (enter .group (stringToId sys.groups (← ace.id)))
  | .other => some (enter .other unset)
  | .null | .mask => some (.error .notSupported)

end Setting

/-- Which calls fail for which entry. -/
def setAces (sys : System) (unset : UInt32) (fails : Nat → Call → Option Errno) : Nat → Lists → List Ace → Option VfsResult
  | _, _, [] => some .ok
  | k, lists, ace :: aces => do
    match ← setAce (fails k) sys unset lists ace with
    | .error result => some result
    | .ok lists => setAces sys unset fails (k + 1) lists aces

/-- `file_set_acl`: the result, if it comes to one, and what is stored then. The lists that are set are the ones in
memory. -/
def fileSetAcl (sys : System) (unset : UInt32) (fails : Nat → Call → Option Errno) (store : Store) (acl : Option (List Ace)) :
    Option VfsResult × Store :=
  match acl with
  | none => (some .badParameters, store)
  | some aces =>
    match store.access with
    | none => (some .generic, store)
    | some access => (setAces sys unset fails 0 ⟨access, store.default⟩ aces, store)

@[simp] theorem equal_iff {a b : Ace} : a.equal b = true ↔ a.key = b.key := decide_eq_true_iff

theorem copyPerms_keys (ace : Ace) (acl : List Ace) : (copyPerms ace acl).map Ace.key = acl.map Ace.key := by
  induction acl with
  | nil => rfl
  | cons entry acl ih =>
    rw [copyPerms]
    split
    · rfl
    · rw [List.map_cons, List.map_cons, ih]

theorem aclSet_keys {acl : List Ace} (distinct : (acl.map Ace.key).Nodup) (ace : Ace) : ((aclSet acl ace).map Ace.key).Nodup := by
  rw [aclSet]
  split
  · rw [copyPerms_keys]
    exact distinct
  · rename_i fresh
    rw [List.map_cons, List.nodup_cons]
    refine ⟨fun there => fresh ?_, distinct⟩
    obtain ⟨entry, inside, same⟩ := List.mem_map.mp there
    exact List.any_eq_true.mpr ⟨entry, inside, equal_iff.mpr same⟩

/-- The permissions of the entry with a key. -/
def permsOf (acl : List Ace) (key : Kind × Bytes × Bool × Bool) : Option (List Perm) :=
  (acl.find? fun entry => entry.key = key).map Ace.perms

theorem permsOf_cons (entry : Ace) (acl : List Ace) (key : Kind × Bytes × Bool × Bool) :
    permsOf (entry :: acl) key = if entry.key = key then some entry.perms else permsOf acl key := by
  rw [permsOf, List.find?_cons]
  by_cases same : entry.key = key
  · rw [decide_eq_true same, if_pos same]
    rfl
  · rw [decide_eq_false same, if_neg same]
    rfl

theorem permsOf_copyPerms (ace : Ace) (acl : List Ace) (there : acl.any (·.equal ace) = true) (key : Kind × Bytes × Bool × Bool) :
    permsOf (copyPerms ace acl) key = if ace.key = key then some ace.perms else permsOf acl key := by
  induction acl with
  | nil => cases there
  | cons entry acl ih =>
    rw [copyPerms]
    split
    · rename_i same
      have same := equal_iff.mp same
      have kept : ({ entry with perms := ace.perms } : Ace).key = entry.key := rfl
      rw [permsOf_cons, permsOf_cons, kept, same]
      split <;> rfl
    · rename_i other
      rw [List.any_cons, Bool.or_eq_true] at there
      rw [permsOf_cons, permsOf_cons, ih (there.resolve_left other)]
      by_cases same : entry.key = key
      · rw [if_pos same, if_pos same, if_neg fun alike => other (equal_iff.mpr (same.trans alike.symm))]
      · rw [if_neg same, if_neg same]

theorem permsOf_aclSet (acl : List Ace) (ace : Ace) (key : Kind × Bytes × Bool × Bool) :
    permsOf (aclSet acl ace) key = if ace.key = key then some ace.perms else permsOf acl key := by
  rw [aclSet]
  split
  · rename_i there
    exact permsOf_copyPerms ace acl there key
  · exact permsOf_cons ace acl key

theorem permsOf_foldl (shown : List Ace) (key : Kind × Bytes × Bool × Bool) : ∀ acl,
    permsOf (shown.foldl aclSet acl) key = (permsOf shown.reverse key).or (permsOf acl key) := by
  induction shown using List.reverseRecOn with
  | nil =>
    intro acl
    rfl
  | append_singleton shown ace ih =>
    intro acl
    rw [List.foldl_append, List.foldl_cons, List.foldl_nil, permsOf_aclSet, List.reverse_append, List.reverse_singleton,
      List.singleton_append, permsOf_cons]
    split
    · rfl
    · exact ih acl

theorem foldl_keys (shown : List Ace) : ∀ {acl : List Ace}, (acl.map Ace.key).Nodup → ((shown.foldl aclSet acl).map Ace.key).Nodup := by
  induction shown with
  | nil =>
    intro acl distinct
    exact distinct
  | cons ace shown ih =>
    intro acl distinct
    exact ih (aclSet_keys distinct ace)

theorem exists_iff_permsOf {acl : List Ace} (distinct : (acl.map Ace.key).Nodup) {key : Kind × Bytes × Bool × Bool} {P : List Perm → Prop} :
    (∃ entry ∈ acl, entry.key = key ∧ P entry.perms) ↔ ∃ perms, permsOf acl key = some perms ∧ P perms := by
  induction acl with
  | nil => simp [permsOf]
  | cons entry acl ih =>
    obtain ⟨fresh, distinct⟩ := List.nodup_cons.mp distinct
    rw [permsOf_cons]
    constructor
    · rintro ⟨found, there, same, holds⟩
      rcases List.mem_cons.mp there with rfl | behind
      · exact ⟨found.perms, if_pos same, holds⟩
      · have other : entry.key ≠ key := fun alike => fresh (alike ▸ same ▸ List.mem_map_of_mem behind)
        rw [if_neg other]
        exact (ih distinct).mp ⟨found, behind, same, holds⟩
    · rintro ⟨perms, found, holds⟩
      by_cases same : entry.key = key
      · rw [if_pos same] at found
        obtain rfl := Option.some.inj found
        exact ⟨entry, List.mem_cons_self, same, holds⟩
      · rw [if_neg same] at found
        obtain ⟨other, behind, alike, holds⟩ := (ih distinct).mpr ⟨perms, found, holds⟩
        exact ⟨other, List.mem_cons_of_mem _ behind, alike, holds⟩

theorem fileGetAcl_getD (sys : System) (store : Store) : (fileGetAcl sys store).getD [] = (store.shown sys).foldl aclSet [] := by
  rw [fileGetAcl]
  split
  · rfl
  · rename_i none_shown
    have empty : store.shown sys = [] := List.length_eq_zero_iff.mp (by omega)
    rw [empty]
    rfl

/-- Entries of users and groups that are named as `file_get_acl` names them, each once. -/
structure Asked (sys : System) (aces : List Ace) : Prop where
  distinct : (aces.map Ace.key).Nodup
  named : ∀ ace ∈ aces, ace.negative = false ∧ ∃ id,
    ace.kind = .user ∧ ace.id = some (idToString sys.passwd id) ∨ ace.kind = .group ∧ ace.id = some (idToString sys.groups id)

def SamePerms (a b : List Perm) : Prop := ∀ perm, perm ∈ a ↔ perm ∈ b

/-- The list that is read afterwards has each entry that was asked for, and the others as they were. -/
structure Granted (sys : System) (before after : Store) (aces : List Ace) : Prop where
  asked : ∀ ace ∈ aces, ∃ entry ∈ (fileGetAcl sys after).getD [], entry.key = ace.key ∧ SamePerms entry.perms ace.perms
  others : ∀ entry ∈ (fileGetAcl sys before).getD [], (∀ ace ∈ aces, entry.key ≠ ace.key) →
    ∃ kept ∈ (fileGetAcl sys after).getD [], kept.key = entry.key ∧ SamePerms kept.perms entry.perms

/-- The last stored entry that is shown as this one has just these permissions. -/
def Store.Has (store : Store) (sys : System) (ace : Ace) : Prop :=
  ∃ perms, permsOf (store.shown sys).reverse ace.key = some perms ∧ SamePerms perms ace.perms

/-- The lists that `file_set_acl` edits are not stored. -/
theorem fileSetAcl_store (sys : System) (unset : UInt32) (fails : Nat → Call → Option Errno) (store : Store) (acl : Option (List Ace)) :
    (fileSetAcl sys unset fails store acl).2 = store := by
  cases acl with
  | none => rfl
  | some aces =>
    rw [fileSetAcl]
    cases store.access <;> rfl

/-- What is asked for is there afterwards if and only if it was before. -/
theorem acl_granted_iff {sys : System} {unset : UInt32} {fails : Nat → Call → Option Errno} {store after : Store} {aces : List Ace}
    (done : fileSetAcl sys unset fails store (some aces) = (some .ok, after)) :
    Granted sys store after aces ↔ ∀ ace ∈ aces, store.Has sys ace := by
  have same : after = store := (congrArg Prod.snd done).symm.trans (fileSetAcl_store sys unset fails store (some aces))
  subst same
  have distinct : (((after.shown sys).foldl aclSet []).map Ace.key).Nodup := foldl_keys (after.shown sys) List.nodup_nil
  have shown : ∀ ace : Ace, (∃ entry ∈ (fileGetAcl sys after).getD [], entry.key = ace.key ∧ SamePerms entry.perms ace.perms) ↔
      after.Has sys ace := fun ace => by
    rw [fileGetAcl_getD, @exists_iff_permsOf _ distinct ace.key fun perms => SamePerms perms ace.perms, permsOf_foldl, Store.Has]
    have none_before : permsOf [] ace.key = none := rfl
    rw [none_before, Option.or_none]
  constructor
  · intro granted ace there
    exact (shown ace).mp (granted.asked ace there)
  · intro had
    exact ⟨fun ace there => (shown ace).mpr (had ace there), fun entry there _ => ⟨entry, there, rfl, fun _ => Iff.rfl⟩⟩

/-- A file with the access list that stands for its mode, and one user. -/
def plainFile : Store :=
  ⟨some [⟨.userObj, undefinedId, true, true, false⟩, ⟨.groupObj, undefinedId, true, false, false⟩,
    ⟨.other, undefinedId, true, false, false⟩], none, false⟩

def oneUser : System := ⟨[⟨ascii "u", 1000⟩], []⟩

def userMayRead : Ace := ⟨.user, some (ascii "u"), [.read], false, false⟩

def sharedFile : Store := { plainFile with access := plainFile.access.map (⟨.user, 1000, true, false, false⟩ :: ·) }

theorem sharedFile_set :
    fileSetAcl oneUser 0 (fun _ _ => none) sharedFile (some [userMayRead]) = (some .ok, sharedFile) := rfl

/-- An entry is set to what it is. -/
theorem acl_granted_iff_shared :
    Granted oneUser sharedFile sharedFile [userMayRead] ↔ ∀ ace ∈ [userMayRead], sharedFile.Has oneUser ace :=
  acl_granted_iff sharedFile_set

theorem plainFile_set :
    fileSetAcl oneUser 0 (fun _ _ => none) plainFile (some [userMayRead]) = (some .ok, plainFile) := rfl

/-- A user is to be let read a file, which is answered with success, and nothing is stored. -/
theorem acl_not_stored : ¬ ∀ (sys : System) (unset : UInt32) (fails : Nat → Call → Option Errno) (store after : Store) (aces : List Ace),
    Asked sys aces → fileSetAcl sys unset fails store (some aces) = (some .ok, after) → Granted sys store after aces := by
  intro stores
  have asked : Asked oneUser [userMayRead] := by
    refine ⟨by decide, fun ace there => ?_⟩
    obtain rfl := List.mem_singleton.mp there
    exact ⟨rfl, 1000, Or.inl ⟨rfl, rfl⟩⟩
  have granted := stores oneUser 0 (fun _ _ => none) plainFile plainFile [userMayRead] asked plainFile_set
  obtain ⟨entry, there, -⟩ := granted.asked userMayRead List.mem_cons_self
  exact absurd there List.not_mem_nil

end GnomeVfs.PosixAcl
