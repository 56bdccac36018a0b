import GnomeVfs.KeyedRemoval
import GnomeVfs.Transition
import GnomeVfs.VolumeMonitor
import Mathlib.Data.Multiset.UnionInter

/- How the volumes follow the mount table, and the drives the table of mount points. -/
namespace GnomeVfs.Volumes

open Mounts Comparator KeyedRemoval

/-- What a volume has of its entry: the activation URI, the device path, the type of the file system and
whether it is read-only. -/
abbrev Facts := Option Bytes × Option Bytes × Option Bytes × Bool

def Volume.facts (volume : Volume) : Facts :=
  (volume.activationUri, volume.devicePath, volume.filesystemType, volume.isReadOnly)

def Mount.uri (mount : Mount) : Option Bytes := getUriFromLocalPath mount.mountPath

def Mount.facts (mount : Mount) : Facts :=
  (mount.uri, some mount.devicePath, some mount.filesystemType, mount.isReadOnly)

/-- What a drive has of its entry: the activation URI and the device path. -/
abbrev DriveFacts := Option Bytes × Option Bytes

def Drive.facts (drive : Drive) : DriveFacts := (drive.activationUri, drive.devicePath)

def MountPoint.uri (mount : MountPoint) : Option Bytes := getUriFromLocalPath mount.mountPath

/-- The device of a `supermount` is the one that its options name. -/
def MountPoint.facts (mount : MountPoint) : DriveFacts :=
  (mount.uri, some (if isOneOf mount.filesystemType ["supermount"] then mount.devOpt.getD mount.devicePath else mount.devicePath))

/-- Entries that are to have a drive. -/
def MountPoint.forUsers (mount : MountPoint) : Bool := mount.isUserMountable && !mount.isLoopback

/-- A volume as it is known, but for the drive that it is on. -/
def Volume.outline (volume : Volume) : Nat × Facts := (volume.id, volume.facts)

def Drive.outline (drive : Drive) : Nat × DriveFacts := (drive.id, drive.facts)

section Comparisons

theorem mountCompare_orders : Orders mountCompare id := by
  refine (unixMountCompare_orders.on Mount.unixMount).congr fun a b => ?_
  cases a
  cases b
  simp [Mount.unixMount]

theorem mountPointCompare_orders : Orders mountPointCompare id := by
  refine (unixMountPointCompare_orders.on MountPoint.unixMountPoint).congr fun a b => ?_
  cases a
  cases b
  simp [MountPoint.unixMountPoint]

variable {α : Type} {compare : α → α → Int}

theorem mergeSort_sorted (orders : Orders compare id) (l : List α) :
    (l.mergeSort fun a b => compare a b ≤ 0).Pairwise (compare · · ≤ 0) := by
  have sorted := @List.pairwise_mergeSort α (fun a b => decide (compare a b ≤ 0))
    (fun a b c first second => decide_eq_true (orders.trans a b c (of_decide_eq_true first) (of_decide_eq_true second)))
    (fun a b => by simpa using orders.total a b) l
  exact sorted.imp fun below => of_decide_eq_true below

theorem diffFrom_mem (list1 list2 : List α) (d : Diff α) {a : α}
    (there : a ∈ (diffFrom compare list1 list2 d).added) : a ∈ d.added ∨ a ∈ list2 := by
  induction list1 generalizing list2 d with
  | nil =>
    rcases List.mem_append.mp there with here | before
    · exact Or.inr (List.mem_reverse.mp here)
    · exact Or.inl before
  | cons b list1 ih =>
    have along : ∀ list2 d, a ∈ (diffAgainst compare b list1 (diffFrom compare list1) list2 d).added → a ∈ d.added ∨ a ∈ list2 := by
      intro list2
      induction list2 with
      | nil => exact fun d there => Or.inl there
      | cons c list2 ih' =>
        intro d there
        simp only [diffAgainst] at there
        split at there
        · exact ih (c :: list2) { d with removed := b :: d.removed } there
        · split at there
          · rcases ih' _ there with here | later
            · rcases List.mem_cons.mp here with rfl | before
              · exact Or.inr List.mem_cons_self
              · exact Or.inl before
            · exact Or.inr (List.mem_cons_of_mem _ later)
          · rcases ih _ _ there with before | later
            · exact Or.inl before
            · exact Or.inr (List.mem_cons_of_mem _ later)
    exact along list2 d there

variable [DecidableEq α]

theorem diff_zipIdx (orders : Orders compare id) {old new : List α} (sortedOld : old.Pairwise (compare · · ≤ 0))
    (sortedNew : new.Pairwise (compare · · ≤ 0)) :
    Difference Prod.fst old.zipIdx new.zipIdx
      (diffSortedLists (fun a b => compare a.1 b.1) old.zipIdx new.zipIdx) := by
  have carried (l : List α) (sorted : l.Pairwise (compare · · ≤ 0)) :
      l.zipIdx.Pairwise fun a b => compare a.1 b.1 ≤ 0 := by
    have mapped : (l.zipIdx.map Prod.fst).Pairwise (compare · · ≤ 0) := by rwa [List.zipIdx_map_fst]
    exact List.pairwise_map.mp mapped
  exact diffSortedLists_difference (orders.on Prod.fst) (carried old sortedOld) (carried new sortedNew)

/-- What is compared is the last table with the new one, each sorted and with its places. -/
theorem diff_tables (orders : Orders compare id) {old table newTable : List α} {diff : Diff (α × Nat)}
    (sortedOld : old.Pairwise (compare · · ≤ 0)) (sortedNew : newTable.Pairwise (compare · · ≤ 0))
    (perm : List.Perm newTable table)
    (compared : diffSortedLists (fun a b => compare a.1 b.1) old.zipIdx newTable.zipIdx = diff) :
    List.Perm (diff.removed.map Prod.fst) (old.diff table) ∧ List.Perm (diff.added.map Prod.fst) (table.diff old) ∧
      ∀ entry ∈ diff.added, newTable[entry.2]? = some entry.1 := by
  have difference := diff_zipIdx orders sortedOld sortedNew
  have places := @diffFrom_mem (α × Nat) (fun a b => compare a.1 b.1) old.zipIdx newTable.zipIdx ⟨[], []⟩
  change ∀ {entry}, entry ∈ (diffSortedLists (fun a b => compare a.1 b.1) old.zipIdx newTable.zipIdx).added →
    entry ∈ [] ∨ entry ∈ newTable.zipIdx at places
  rw [compared] at difference places
  refine ⟨?_, ?_, fun entry there => ?_⟩
  · have counted := difference.removed
    rw [List.zipIdx_map_fst, List.zipIdx_map_fst, Multiset.coe_eq_coe.mpr perm, Multiset.coe_sub] at counted
    exact Multiset.coe_eq_coe.mp counted
  · have counted := difference.added
    rw [List.zipIdx_map_fst, List.zipIdx_map_fst, Multiset.coe_eq_coe.mpr perm, Multiset.coe_sub] at counted
    exact Multiset.coe_eq_coe.mp counted
  · rcases places there with nothing | placed
    · cases nothing
    · exact List.mem_zipIdx_iff_getElem?.mp placed

end Comparisons

def volumeIds (s : VolumeMonitor) : List Nat := (s.mtabVolumes ++ s.serverVolumes ++ s.vfsVolumes).map Volume.id

def driveIds (s : VolumeMonitor) : List Nat := s.fstabDrives.map Drive.id

/-- Every volume and every drive has an id of its own, which the counters have passed. -/
structure Numbered (s : VolumeMonitor) : Prop where
  volumes : (volumeIds s).Nodup
  volumesBelow : ∀ id ∈ volumeIds s, id < s.volumeIdCounter
  drives : (driveIds s).Nodup
  drivesBelow : ∀ id ∈ driveIds s, id < s.driveIdCounter

/-- What an update of the volumes leaves alone. -/
structure SameDrives (s t : VolumeMonitor) : Prop where
  drives : t.fstabDrives.map Drive.outline = s.fstabDrives.map Drive.outline
  counter : t.driveIdCounter = s.driveIdCounter
  last : t.lastFstab = s.lastFstab

/-- What an update of the drives leaves alone. -/
structure SameVolumes (s t : VolumeMonitor) : Prop where
  mtab : t.mtabVolumes.map Volume.outline = s.mtabVolumes.map Volume.outline
  servers : t.serverVolumes = s.serverVolumes
  vfs : t.vfsVolumes = s.vfsVolumes
  counter : t.volumeIdCounter = s.volumeIdCounter
  last : t.lastMtab = s.lastMtab

theorem SameDrives.refl (s : VolumeMonitor) : SameDrives s s := ⟨rfl, rfl, rfl⟩

theorem SameDrives.trans {s t u : VolumeMonitor} (first : SameDrives s t) (second : SameDrives t u) : SameDrives s u :=
  ⟨second.drives.trans first.drives, second.counter.trans first.counter, second.last.trans first.last⟩

theorem SameVolumes.refl (s : VolumeMonitor) : SameVolumes s s := ⟨rfl, rfl, rfl, rfl, rfl⟩

theorem SameVolumes.trans {s t u : VolumeMonitor} (first : SameVolumes s t) (second : SameVolumes t u) : SameVolumes s u :=
  ⟨second.mtab.trans first.mtab, second.servers.trans first.servers, second.vfs.trans first.vfs,
    second.counter.trans first.counter, second.last.trans first.last⟩

theorem onDrive_outline (s : VolumeMonitor) (id : Nat) {f : Drive → Drive} (same : ∀ drive, (f drive).outline = drive.outline) :
    (onDrive s id f).fstabDrives.map Drive.outline = s.fstabDrives.map Drive.outline := by
  rw [onDrive, List.map_map]
  refine List.map_congr_left fun drive _ => ?_
  rw [Function.comp_apply]
  split
  · exact same drive
  · rfl

theorem setDrive_outline (s : VolumeMonitor) (id : Nat) (drive : Option Nat) :
    (setDrive s id drive).mtabVolumes.map Volume.outline = s.mtabVolumes.map Volume.outline := by
  rw [setDrive, List.map_map]
  refine List.map_congr_left fun volume _ => ?_
  rw [Function.comp_apply]
  split <;> rfl

theorem unmounted_effect {s t : VolumeMonitor} {volume : Volume} (removed : unmounted s volume = some t) :
    ∃ drives, t = { delist s volume.id with fstabDrives := drives } ∧
      drives.map Drive.outline = s.fstabDrives.map Drive.outline := by
  unfold unmounted at removed
  dsimp only at removed
  split at removed
  · obtain rfl := Option.some.inj removed
    exact ⟨s.fstabDrives, rfl, rfl⟩
  · split at removed
    · obtain rfl := Option.some.inj removed
      refine ⟨_, rfl, onDrive_outline (delist s volume.id) _ ?_⟩
      exact fun _ => rfl
    · cases removed

theorem createVolFromMount_effect {around : Surroundings} {s t : VolumeMonitor} {mount mount' : Mount} {volume : Volume}
    (plain : needsFixup mount.devicePath mount.mountPath = false)
    (created : createVolFromMount around s mount = some (volume, mount', t)) :
    mount' = mount ∧ volume.facts = mount.facts ∧ volume.id = s.volumeIdCounter ∧ volume.volumeType = .mountpoint ∧
      ∃ drives, t = { s with volumeIdCounter := s.volumeIdCounter + 1, fstabDrives := drives } ∧
        drives.map Drive.outline = s.fstabDrives.map Drive.outline := by
  rw [createVolFromMount] at created
  obtain ⟨name, -, created⟩ := Option.bind_eq_some_iff.mp created
  obtain ⟨containing, -, created⟩ := Option.bind_eq_some_iff.mp created
  have same : fixupMount mount = mount := if_neg (Bool.eq_false_iff.mp plain)
  rw [same] at created
  cases containing with
  | none =>
    cases Option.some.inj created
    exact ⟨rfl, rfl, rfl, rfl, s.fstabDrives, rfl, rfl⟩
  | some drive =>
    dsimp only at created
    split at created
    · cases Option.some.inj created
      exact ⟨rfl, rfl, rfl, rfl, s.fstabDrives, rfl, rfl⟩
    · cases Option.some.inj created
      refine ⟨rfl, rfl, rfl, rfl, _, rfl, onDrive_outline s _ ?_⟩
      exact fun _ => rfl

theorem unsetDrives_effect {drive first : Nat} (rounds : List Nat) {s t : VolumeMonitor}
    (ends : unsetDrives drive first rounds s = some t) :
    ∃ volumes, t = { s with mtabVolumes := volumes } ∧ volumes.map Volume.outline = s.mtabVolumes.map Volume.outline := by
  induction rounds generalizing s with
  | nil =>
    obtain rfl := Option.some.inj ends
    exact ⟨s.mtabVolumes, rfl, rfl⟩
  | cons _ rounds ih =>
    rw [unsetDrives] at ends
    split at ends
    · obtain ⟨volumes, rfl, same⟩ := ih ends
      exact ⟨volumes, rfl, same.trans (setDrive_outline s first none)⟩
    · cases ends

theorem disconnected_effect {s t : VolumeMonitor} {drive : Drive} (removed : disconnected s drive = some t) :
    SameVolumes s t ∧ t.fstabDrives = s.fstabDrives.eraseP (fun other => other.id = drive.id) ∧
      t.driveIdCounter = s.driveIdCounter ∧ t.lastFstab = s.lastFstab := by
  obtain ⟨volumes, rfl, same⟩ := unsetDrives_effect _ removed
  exact ⟨⟨same, rfl, rfl, rfl, rfl⟩, rfl, rfl, rfl⟩

theorem createDriveFromMountPoint_effect {around : Surroundings} {s t : VolumeMonitor} {mount mount' : MountPoint} {drive : Drive}
    (plain : needsFixup mount.devicePath mount.mountPath = false)
    (created : createDriveFromMountPoint around s mount = some (some (drive, mount', t))) :
    mount' = mount ∧ drive.facts = mount.facts ∧ drive.id = s.driveIdCounter ∧
      SameVolumes s t ∧ t.fstabDrives = s.fstabDrives ∧ t.driveIdCounter = s.driveIdCounter + 1 ∧ t.lastFstab = s.lastFstab := by
  rw [createDriveFromMountPoint] at created
  split at created
  · cases created
  · obtain ⟨name, -, created⟩ := Option.bind_eq_some_iff.mp created
    obtain ⟨found, -, created⟩ := Option.bind_eq_some_iff.mp created
    have same : fixupMountpoint mount = mount := if_neg (Bool.eq_false_iff.mp plain)
    rw [same] at created
    cases found with
    | none =>
      cases Option.some.inj created
      exact ⟨rfl, rfl, rfl, ⟨rfl, rfl, rfl, rfl, rfl⟩, rfl, rfl, rfl⟩
    | some volume =>
      dsimp only at created
      split at created
      · cases Option.some.inj created
        exact ⟨rfl, rfl, rfl, ⟨setDrive_outline s _ _, rfl, rfl, rfl, rfl⟩, rfl, rfl, rfl⟩
      · cases Option.some.inj created
        exact ⟨rfl, rfl, rfl, ⟨rfl, rfl, rfl, rfl, rfl⟩, rfl, rfl, rfl⟩

theorem createVolumeFromConnectedServer_effect {s t : VolumeMonitor} {server : ConnectedServer} {volume : Volume}
    (created : createVolumeFromConnectedServer s server = some (volume, t)) :
    volume.id = s.volumeIdCounter ∧ volume.volumeType = .connectedServer ∧
      t = { s with volumeIdCounter := s.volumeIdCounter + 1 } := by
  rw [createVolumeFromConnectedServer] at created
  obtain ⟨name, -, created⟩ := Option.bind_eq_some_iff.mp created
  cases Option.some.inj created
  exact ⟨rfl, rfl, rfl⟩

theorem mounted_mountpoint (s : VolumeMonitor) {volume : Volume} (type : volume.volumeType = .mountpoint) :
    mounted s volume = { s with mtabVolumes := { volume with isMounted := true } :: s.mtabVolumes } := by
  unfold mounted
  dsimp only
  rw [type]

theorem mounted_server (s : VolumeMonitor) {volume : Volume} (type : volume.volumeType = .connectedServer) :
    mounted s volume = { s with serverVolumes := { volume with isMounted := true } :: s.serverVolumes } := by
  unfold mounted
  dsimp only
  rw [type]

theorem findByActivationUri_some {α : Type} (activationUri : α → Option Bytes) (uri : Bytes) (l : List α) :
    findByActivationUri activationUri (some uri) l = some (l.find? fun x => activationUri x = some uri) := by
  induction l with
  | nil => rfl
  | cons x l ih =>
    rw [findByActivationUri]
    cases own : activationUri x with
    | none =>
      rw [List.find?_cons_of_neg (by simp [own])]
      exact ih
    | some other =>
      by_cases same : other = uri
      · rw [List.find?_cons_of_pos (by simp [own, same])]
        exact if_pos ((strcmp_orders.zero other uri).mpr same)
      · rw [List.find?_cons_of_neg (by simp [own, same])]
        exact (if_neg fun equal => same ((strcmp_orders.zero other uri).mp equal)).trans ih

theorem driveIds_outline {s t : VolumeMonitor} (same : t.fstabDrives.map Drive.outline = s.fstabDrives.map Drive.outline) :
    driveIds t = driveIds s := by
  have ids := congrArg (List.map Prod.fst) same
  rwa [List.map_map, List.map_map] at ids

theorem Numbered.fewer {s t : VolumeMonitor} (numbered : Numbered s) (volumes : List.Sublist (volumeIds t) (volumeIds s))
    (drives : List.Sublist (driveIds t) (driveIds s)) (volumeCounter : s.volumeIdCounter ≤ t.volumeIdCounter)
    (driveCounter : s.driveIdCounter ≤ t.driveIdCounter) : Numbered t :=
  ⟨numbered.volumes.sublist volumes,
    fun id there => Nat.lt_of_lt_of_le (numbered.volumesBelow id (volumes.subset there)) volumeCounter,
    numbered.drives.sublist drives,
    fun id there => Nat.lt_of_lt_of_le (numbered.drivesBelow id (drives.subset there)) driveCounter⟩

theorem delist_found {s : VolumeMonitor} (numbered : Numbered s) {p : Volume → Bool} {volume : Volume}
    (found : s.mtabVolumes.find? p = some volume) :
    delist s volume.id = { s with mtabVolumes := s.mtabVolumes.eraseP p } := by
  have ids := numbered.volumes
  rw [volumeIds, List.map_append, List.map_append, List.append_assoc, List.nodup_append] at ids
  obtain ⟨apart, -, different⟩ := ids
  have here : volume.id ∈ s.mtabVolumes.map Volume.id := List.mem_map_of_mem (List.mem_of_find?_eq_some found)
  have servers : without volume.id s.serverVolumes = s.serverVolumes :=
    removeFirst_of_notMem fun there => different _ here _ (List.mem_append_left _ there) rfl
  have vfs : without volume.id s.vfsVolumes = s.vfsVolumes :=
    removeFirst_of_notMem fun there => different _ here _ (List.mem_append_right _ there) rfl
  have mtab : without volume.id s.mtabVolumes = s.mtabVolumes.eraseP p := removeFirst_found apart found
  rw [delist, mtab, servers, vfs]

/-- What is left after some mounts went: for each of them the first volume with its URI is gone. -/
structure MountsRemoved (uris : List Bytes) (s t : VolumeMonitor) : Prop where
  mtab : t.mtabVolumes = removeFirsts Volume.activationUri (uris.map some) s.mtabVolumes
  servers : t.serverVolumes = s.serverVolumes
  vfs : t.vfsVolumes = s.vfsVolumes
  counter : t.volumeIdCounter = s.volumeIdCounter
  drives : SameDrives s t

theorem MountsRemoved.numbered {uris : List Bytes} {s t : VolumeMonitor} (removed : MountsRemoved uris s t)
    (numbered : Numbered s) : Numbered t := by
  refine numbered.fewer ?_ ?_ (Nat.le_of_eq removed.counter.symm) (Nat.le_of_eq removed.drives.counter.symm)
  · rw [volumeIds, volumeIds, removed.mtab, removed.servers, removed.vfs]
    exact (((removeFirsts_sublist _ _ _).append (List.Sublist.refl _)).append (List.Sublist.refl _)).map _
  · exact (driveIds_outline removed.drives.drives).symm ▸ List.Sublist.refl _

theorem removeMount_turn {s t : VolumeMonitor} (numbered : Numbered s) {uri : Bytes} {found : Option Volume}
    (finds : findMtabVolumeByActivationUri s (some uri) = some found)
    (gone : (found.elim (some s) fun volume => unmounted s volume) = some t) : MountsRemoved [uri] s t := by
  rw [findMtabVolumeByActivationUri, findByActivationUri_some] at finds
  have finds := Option.some.inj finds
  cases found with
  | none =>
    obtain rfl := Option.some.inj gone
    have nothing : some uri ∉ s.mtabVolumes.map Volume.activationUri := by
      intro there
      obtain ⟨volume, among, same⟩ := List.mem_map.mp there
      exact List.find?_eq_none.mp finds volume among (decide_eq_true same)
    exact ⟨(removeFirst_of_notMem nothing).symm, rfl, rfl, rfl, SameDrives.refl s⟩
  | some volume =>
    obtain ⟨drives, rfl, same⟩ := unmounted_effect gone
    rw [delist_found numbered finds]
    exact ⟨rfl, rfl, rfl, rfl, same, rfl, rfl⟩

theorem removeMounts_removed {removed : List Mount} {uris : List Bytes} (absolute : removed.map Mount.uri = uris.map some)
    {s t : VolumeMonitor} (numbered : Numbered s) (ends : removeMounts s removed = some t) : MountsRemoved uris s t := by
  induction removed generalizing s uris with
  | nil =>
    obtain rfl := List.map_eq_nil_iff.mp absolute.symm
    obtain rfl := Option.some.inj ends
    exact ⟨rfl, rfl, rfl, rfl, SameDrives.refl s⟩
  | cons mount removed ih =>
    cases uris with
    | nil => cases absolute
    | cons uri uris =>
      rw [List.map_cons, List.map_cons, List.cons.injEq] at absolute
      rw [removeMounts, List.foldlM_cons] at ends
      obtain ⟨u, turn, rest⟩ := Option.bind_eq_some_iff.mp ends
      obtain ⟨found, finds, gone⟩ := Option.bind_eq_some_iff.mp turn
      have known : getUriFromLocalPath mount.mountPath = some uri := absolute.1
      rw [known] at finds
      have first : MountsRemoved [uri] s u := by
        refine removeMount_turn numbered finds ?_
        cases found with
        | none => exact gone
        | some volume => exact gone
      have later := ih absolute.2 (first.numbered numbered) rest
      refine ⟨?_, later.servers.trans first.servers, later.vfs.trans first.vfs, later.counter.trans first.counter,
        first.drives.trans later.drives⟩
      rw [later.mtab, first.mtab]
      rfl

theorem set_same {α : Type} {l : List α} {place : Nat} {a : α} (there : l[place]? = some a) : l.set place a = l := by
  obtain ⟨inside, rfl⟩ := List.getElem?_eq_some_iff.mp there
  exact List.set_getElem_self inside

/-- What is there after some mounts were added: a new volume for each. -/
structure MountsAdded (mounts : List Mount) (s t : VolumeMonitor) : Prop where
  mtab : ∃ created, t.mtabVolumes = created ++ s.mtabVolumes ∧ created.map Volume.facts = mounts.reverse.map Mount.facts ∧
    ∀ volume ∈ created, s.volumeIdCounter ≤ volume.id
  drives : SameDrives s t
  numbered : Numbered t

theorem mounted_numbered {s : VolumeMonitor} (numbered : Numbered s) (volume : Volume) (id : volume.id = s.volumeIdCounter)
    {drives : List Drive} (same : drives.map Drive.outline = s.fstabDrives.map Drive.outline) :
    Numbered (mounted { s with volumeIdCounter := s.volumeIdCounter + 1, fstabDrives := drives } volume) := by
  have perm : List.Perm
      (volumeIds (mounted { s with volumeIdCounter := s.volumeIdCounter + 1, fstabDrives := drives } volume))
      (s.volumeIdCounter :: volumeIds s) := by
    unfold mounted
    dsimp only
    rw [← id]
    split
    · exact List.Perm.refl _
    · simp only [volumeIds, List.map_append, List.map_cons]
      exact List.perm_middle.append_right _
    · simp only [volumeIds, List.map_append, List.map_cons]
      exact List.perm_middle
  have counter : (mounted { s with volumeIdCounter := s.volumeIdCounter + 1, fstabDrives := drives } volume).volumeIdCounter =
      s.volumeIdCounter + 1 := by
    unfold mounted
    dsimp only
    split <;> rfl
  have ids : driveIds (mounted { s with volumeIdCounter := s.volumeIdCounter + 1, fstabDrives := drives } volume) = driveIds s := by
    refine Eq.trans ?_ (@driveIds_outline s { s with fstabDrives := drives } same)
    unfold mounted
    dsimp only
    split <;> rfl
  have driveCounter : (mounted { s with volumeIdCounter := s.volumeIdCounter + 1, fstabDrives := drives } volume).driveIdCounter =
      s.driveIdCounter := by
    unfold mounted
    dsimp only
    split <;> rfl
  refine ⟨?_, fun other there => ?_, ids ▸ numbered.drives, fun other there => ?_⟩
  · refine perm.nodup_iff.mpr (List.nodup_cons.mpr ⟨fun there => ?_, numbered.volumes⟩)
    exact absurd (numbered.volumesBelow _ there) (Nat.lt_irrefl _)
  · rw [counter]
    rcases List.mem_cons.mp (perm.subset there) with rfl | before
    · exact Nat.lt_succ_self _
    · exact Nat.lt_succ_of_lt (numbered.volumesBelow _ before)
  · rw [driveCounter]
    exact numbered.drivesBelow _ (ids ▸ there)

theorem addMounts_added {around : Surroundings} {newMtab newMtab' : List Mount} (added : List ((Mount × Nat) × UInt32))
    (plain : ∀ entry ∈ added, needsFixup entry.1.1.devicePath entry.1.1.mountPath = false)
    (placed : ∀ entry ∈ added, newMtab[entry.1.2]? = some entry.1.1) {s t : VolumeMonitor} (numbered : Numbered s)
    (ends : addMounts around s newMtab added = some (t, newMtab')) :
    newMtab' = newMtab ∧ MountsAdded (added.map fun entry => entry.1.1) s t := by
  induction added generalizing s newMtab with
  | nil =>
    cases Option.some.inj ends
    exact ⟨rfl, ⟨[], rfl, rfl, fun _ there => absurd there List.not_mem_nil⟩, SameDrives.refl _, numbered⟩
  | cons entry added ih =>
    obtain ⟨⟨mount, place⟩, unixDevice⟩ := entry
    rw [addMounts] at ends
    obtain ⟨⟨volume, mount', u⟩, created, ends⟩ := Option.bind_eq_some_iff.mp ends
    obtain ⟨unfixed, facts, id, type, drives, rfl, same⟩ := createVolFromMount_effect (plain _ List.mem_cons_self) created
    obtain rfl : mount = mount' := unfixed.symm
    have kept : newMtab.set place mount = newMtab := set_same (placed _ List.mem_cons_self)
    dsimp only at ends
    rw [kept] at ends
    have known : Numbered (mounted { s with volumeIdCounter := s.volumeIdCounter + 1, fstabDrives := drives }
        { volume with unixDevice := unixDevice }) := mounted_numbered numbered { volume with unixDevice := unixDevice } id same
    have shape := @mounted_mountpoint { s with volumeIdCounter := s.volumeIdCounter + 1, fstabDrives := drives }
      { volume with unixDevice := unixDevice } type
    rw [shape] at ends known
    obtain ⟨same_table, ⟨created', rest, facts', later⟩, same_drives, numbered'⟩ :=
      ih (fun entry there => plain entry (List.mem_cons_of_mem _ there))
        (fun entry there => placed entry (List.mem_cons_of_mem _ there)) known ends
    refine ⟨same_table, ⟨created' ++ [{ volume with unixDevice := unixDevice, isMounted := true }], ?_, ?_, ?_⟩, ?_, numbered'⟩
    · rw [rest, List.append_assoc]
      rfl
    · rw [List.map_append, facts', List.map_cons, List.map_cons, List.reverse_cons, List.map_append]
      exact congrArg (_ ++ [·]) facts
    · intro other there
      rcases List.mem_append.mp there with before | here
      · exact Nat.le_of_succ_le (later other before)
      · rw [List.mem_singleton.mp here]
        exact Nat.le_of_eq id.symm
    · exact ⟨same_drives.drives.trans same, same_drives.counter, same_drives.last⟩

/-- The volumes correspond to the entries of the last table. -/
structure FollowsMtab (s : VolumeMonitor) : Prop where
  sorted : s.lastMtab.Pairwise (mountCompare · · ≤ 0)
  volumes : List.Perm (s.mtabVolumes.map Volume.facts) (s.lastMtab.map Mount.facts)

/-- Of each URI, the first volumes, as many as entries with this URI are gone, are the ones of these
entries. What goes is an absolute path, and no new entry is a slice of Solaris. An entry whose path is not
absolute cannot be looked for among drives that have a URI. -/
structure MtabRecognized (s : VolumeMonitor) (table : List Mount) : Prop where
  absolute : ∀ mount ∈ s.lastMtab.diff table, mount.uri ≠ none
  plain : ∀ mount ∈ table.diff s.lastMtab, needsFixup mount.devicePath mount.mountPath = false
  named : ∀ mount ∈ table.diff s.lastMtab, mount.uri = none → ∀ uri ∈ s.fstabDrives.map Drive.activationUri, uri = none
  first : ∀ uri, List.Perm
    (((having Volume.activationUri uri s.mtabVolumes).take (having Mount.uri uri (s.lastMtab.diff table)).length).map
      Volume.facts)
    ((having Mount.uri uri (s.lastMtab.diff table)).map Mount.facts)

/-- The volumes of the entries that are in both tables are the same ones as before, and the others are new. -/
def VolumesKept (s t : VolumeMonitor) (table : List Mount) : Prop :=
  ∃ created kept, t.mtabVolumes = created ++ kept ∧ List.Sublist kept s.mtabVolumes ∧
    (kept.map Volume.facts : Multiset Facts) = ((s.lastMtab : Multiset Mount) ∩ (table : Multiset Mount)).map Mount.facts ∧
    ∀ volume ∈ created, volume.id ∉ volumeIds s

theorem exists_uris {removed : List Mount} (absolute : ∀ mount ∈ removed, mount.uri ≠ none) :
    ∃ uris : List Bytes, removed.map Mount.uri = uris.map some := by
  induction removed with
  | nil => exact ⟨[], rfl⟩
  | cons mount removed ih =>
    obtain ⟨uri, known⟩ := Option.ne_none_iff_exists'.mp (absolute mount List.mem_cons_self)
    obtain ⟨uris, rest⟩ := ih fun other there => absolute other (List.mem_cons_of_mem _ there)
    exact ⟨uri :: uris, by rw [List.map_cons, List.map_cons, known, rest]⟩

/-- What is left when the volumes of the removed entries went. -/
theorem removed_exact {s t : VolumeMonitor} {table removed : List Mount} {uris : List Bytes}
    (follows : FollowsMtab s) (recognized : MtabRecognized s table)
    (known : removed.map Mount.uri = uris.map some) (gone : List.Perm removed (s.lastMtab.diff table))
    (ends : MountsRemoved uris s t) :
    (t.mtabVolumes.map Volume.facts : Multiset Facts) =
      ((s.lastMtab : Multiset Mount) ∩ (table : Multiset Mount)).map Mount.facts := by
  have total : ((t.mtabVolumes.map Volume.facts : Multiset Facts) + (removed.map Mount.facts : Multiset Facts)) =
      (s.mtabVolumes.map Volume.facts : Multiset Facts) := by
    rw [ends.mtab]
    refine (@removeFirsts_exact _ _ _ _ _ Volume.activationUri Volume.facts Prod.fst (fun _ => rfl) _ _ _).mpr fun uri => ?_
    have same := gone.filter fun mount => decide (mount.uri = uri)
    have counted : (having id uri (uris.map some)).length = (having Mount.uri uri (s.lastMtab.diff table)).length := by
      rw [← known, having, List.filter_map, List.length_map]
      exact same.length_eq
    have mine : having Prod.fst uri (removed.map Mount.facts) = (having Mount.uri uri removed).map Mount.facts := by
      rw [having, having, List.filter_map]
      rfl
    rw [counted, mine]
    exact (recognized.first uri).trans (same.symm.map _)
  have parts : (s.lastMtab : Multiset Mount) =
      (removed : Multiset Mount) + ((s.lastMtab : Multiset Mount) ∩ (table : Multiset Mount)) := by
    rw [Multiset.coe_eq_coe.mpr gone, ← Multiset.coe_sub]
    exact (Multiset.sub_add_inter _ _).symm
  have all : (s.mtabVolumes.map Volume.facts : Multiset Facts) = (s.lastMtab : Multiset Mount).map Mount.facts :=
    Multiset.coe_eq_coe.mpr follows.volumes
  have mapped := (congrArg (Multiset.map Mount.facts) parts).trans (Multiset.map_add _ _ _)
  rw [all, mapped, Multiset.add_comm] at total
  exact Multiset.add_right_inj.mp total

theorem walkDevices_fst {α : Type} {l : List α} {devices : List UInt64} {walked : List (α × UInt32)}
    (walk : walkDevices l devices = some walked) : walked.map Prod.fst = l := by
  induction l generalizing devices walked with
  | nil =>
    obtain rfl := Option.some.inj walk
    rfl
  | cons a l ih =>
    cases devices with
    | nil => cases walk
    | cons dev devices =>
      obtain ⟨rest, walks, rfl⟩ := Option.map_eq_some_iff.mp walk
      rw [List.map_cons, ih walks]

/-- What an update of the mount table gives, if the entries that go are recognized. -/
theorem updateMtabVolumes_follows {around : Surroundings} {table : List Mount} {s t : VolumeMonitor} (numbered : Numbered s)
    (follows : FollowsMtab s) (recognized : MtabRecognized s table) (update : updateMtabVolumes around table s = some t) :
    (FollowsMtab t ∧ Numbered t ∧ SameDrives s t) ∧ List.Perm (t.mtabVolumes.map Volume.facts) (table.map Mount.facts) ∧
      VolumesKept s t table := by
  have sorted := mergeSort_sorted mountCompare_orders table
  have perm := List.mergeSort_perm table fun a b => decide (mountCompare a b ≤ 0)
  unfold updateMtabVolumes at update
  generalize table.mergeSort (fun a b => decide (mountCompare a b ≤ 0)) = newMtab at sorted perm update
  dsimp only at update
  generalize compared : diffSortedLists (fun a b => mountCompare a.1 b.1) s.lastMtab.zipIdx newMtab.zipIdx = diff at update
  obtain ⟨u, removal, update⟩ := Option.bind_eq_some_iff.mp update
  obtain ⟨devices, -, update⟩ := Option.bind_eq_some_iff.mp update
  obtain ⟨added, walked, update⟩ := Option.bind_eq_some_iff.mp update
  obtain ⟨⟨v, newMtab'⟩, addition, update⟩ := Option.bind_eq_some_iff.mp update
  obtain rfl := Option.some.inj update
  obtain ⟨gone, new, placed⟩ := diff_tables mountCompare_orders follows.sorted sorted perm compared
  have entries := walkDevices_fst walked
  have among : ∀ entry ∈ added, entry.1 ∈ diff.added := fun entry there => entries ▸ List.mem_map_of_mem there
  obtain ⟨uris, known⟩ := exists_uris fun mount there => recognized.absolute mount (gone.subset there)
  have removed := removeMounts_removed known numbered removal
  have left := removed_exact follows recognized known gone removed
  obtain ⟨rfl, ⟨created, volumes, facts, later⟩, drives, numbered'⟩ := addMounts_added added
    (fun entry there => recognized.plain _ (new.subset (List.mem_map_of_mem (among entry there))))
    (fun entry there => placed entry.1 (among entry there)) (removed.numbered numbered) addition
  have created_facts : (created.map Volume.facts : Multiset Facts) = ((table : Multiset Mount) - s.lastMtab).map Mount.facts := by
    rw [facts, Multiset.coe_sub, Multiset.map_coe, Multiset.coe_eq_coe]
    have mounts : added.map (fun entry => entry.1.1) = diff.added.map Prod.fst := by
      rw [← entries, List.map_map]
      rfl
    rw [mounts]
    exact ((List.reverse_perm _).trans new).map _
  have all : List.Perm (v.mtabVolumes.map Volume.facts) (table.map Mount.facts) := by
    rw [← Multiset.coe_eq_coe, volumes, List.map_append, ← Multiset.coe_add, created_facts, left, Multiset.inter_comm,
      ← Multiset.map_add, Multiset.sub_add_inter, Multiset.map_coe]
  have same := removed.drives.trans drives
  refine ⟨⟨⟨sorted, all.trans (perm.symm.map _)⟩, ⟨numbered'.volumes, numbered'.volumesBelow, numbered'.drives,
    numbered'.drivesBelow⟩, same.drives, same.counter, same.last⟩, all, created, u.mtabVolumes, volumes, ?_, left, ?_⟩
  · rw [removed.mtab]
    exact removeFirsts_sublist _ _ _
  · intro volume there before
    have old := numbered.volumesBelow _ before
    have young := later volume there
    rw [removed.counter] at young
    omega

/-- The drives correspond to the entries of the last table that are for users. -/
structure FollowsFstab (s : VolumeMonitor) : Prop where
  sorted : s.lastFstab.Pairwise (mountPointCompare · · ≤ 0)
  drives : List.Perm (s.fstabDrives.map Drive.facts) ((s.lastFstab.filter MountPoint.forUsers).map MountPoint.facts)

/-- Of each URI, the first drives, as many as entries with this URI are gone, are the ones of those among
these entries that are for users, and none of them has two volumes. No new entry gets a drive for its device
below `/vol/` alone, and none is a slice of Solaris. An entry whose path is not absolute cannot be looked for
among drives or volumes that have a URI. -/
structure FstabRecognized (s : VolumeMonitor) (table : List MountPoint) : Prop where
  absolute : ∀ mount ∈ s.lastFstab.diff table, mount.forUsers = true → mount.uri ≠ none
  usual : ∀ mount ∈ table.diff s.lastFstab, mount.forUsers = false →
    mount.isLoopback = true ∨ (ascii "/vol/").isPrefixOf mount.devicePath = false
  plain : ∀ mount ∈ table.diff s.lastFstab, mount.forUsers = true → needsFixup mount.devicePath mount.mountPath = false
  asked : ∀ mount ∈ s.lastFstab.diff table, mount.uri = none → ∀ uri ∈ s.fstabDrives.map Drive.activationUri, uri = none
  named : ∀ mount ∈ table.diff s.lastFstab, mount.forUsers = true → mount.uri = none →
    ∀ uri ∈ s.mtabVolumes.map Volume.activationUri, uri = none
  single : ∀ uri : Bytes, ∀ drive ∈ (having Drive.activationUri (some uri) s.fstabDrives).take
    (having MountPoint.uri (some uri) (s.lastFstab.diff table)).length, drive.volumes.length ≤ 1
  first : ∀ uri : Bytes, List.Perm
    (((having Drive.activationUri (some uri) s.fstabDrives).take
      (having MountPoint.uri (some uri) (s.lastFstab.diff table)).length).map Drive.facts)
    (((having MountPoint.uri (some uri) (s.lastFstab.diff table)).filter MountPoint.forUsers).map MountPoint.facts)

theorem volumeIds_same {s t : VolumeMonitor} (same : SameVolumes s t) : volumeIds t = volumeIds s := by
  have ids := congrArg (List.map Prod.fst) same.mtab
  rw [List.map_map, List.map_map] at ids
  rw [volumeIds, volumeIds, same.servers, same.vfs, List.map_append, List.map_append, List.map_append, List.map_append]
  exact congrArg (· ++ _) (congrArg (· ++ _) ids)

/-- What is left after some mount points went: for each of them the first drive with its URI is gone. -/
structure DrivesRemoved (uris : List Bytes) (s t : VolumeMonitor) : Prop where
  drives : t.fstabDrives = removeFirsts Drive.activationUri (uris.map some) s.fstabDrives
  counter : t.driveIdCounter = s.driveIdCounter
  last : t.lastFstab = s.lastFstab
  volumes : SameVolumes s t

theorem DrivesRemoved.numbered {uris : List Bytes} {s t : VolumeMonitor} (removed : DrivesRemoved uris s t)
    (numbered : Numbered s) : Numbered t := by
  refine numbered.fewer ?_ ?_ (Nat.le_of_eq removed.volumes.counter.symm) (Nat.le_of_eq removed.counter.symm)
  · exact (volumeIds_same removed.volumes).symm ▸ List.Sublist.refl _
  · rw [driveIds, driveIds, removed.drives]
    exact (removeFirsts_sublist _ _ _).map _

theorem findByActivationUri_none {α : Type} {activationUri : α → Option Bytes} {l : List α} {found : Option α}
    (finds : findByActivationUri activationUri none l = some found) : found = none := by
  induction l with
  | nil => exact (Option.some.inj finds).symm
  | cons x l ih =>
    rw [findByActivationUri] at finds
    cases own : activationUri x with
    | none =>
      rw [own] at finds
      exact ih finds
    | some other =>
      rw [own] at finds
      cases finds

theorem removeMountPoint_turn {s t : VolumeMonitor} (numbered : Numbered s) {uri : Option Bytes} {found : Option Drive}
    (finds : findFstabDriveByActivationUri s uri = some found)
    (gone : (found.elim (some s) fun drive => disconnected s drive) = some t) : DrivesRemoved uri.toList s t := by
  cases uri with
  | none =>
    obtain rfl := findByActivationUri_none finds
    obtain rfl := Option.some.inj gone
    exact ⟨rfl, rfl, rfl, SameVolumes.refl s⟩
  | some uri =>
    rw [findFstabDriveByActivationUri, findByActivationUri_some] at finds
    have finds := Option.some.inj finds
    cases found with
    | none =>
      obtain rfl := Option.some.inj gone
      have nothing : some uri ∉ s.fstabDrives.map Drive.activationUri := by
        intro there
        obtain ⟨drive, among, same⟩ := List.mem_map.mp there
        exact List.find?_eq_none.mp finds drive among (decide_eq_true same)
      exact ⟨(removeFirst_of_notMem nothing).symm, rfl, rfl, SameVolumes.refl s⟩
    | some drive =>
      obtain ⟨volumes, drives, counter, last⟩ := disconnected_effect gone
      refine ⟨drives.trans ?_, counter, last, volumes⟩
      exact removeFirst_found numbered.drives finds

theorem removeMountPoints_removed {removed : List MountPoint} {s t : VolumeMonitor} (numbered : Numbered s)
    (ends : removeMountPoints s removed = some t) : DrivesRemoved (removed.filterMap MountPoint.uri) s t := by
  induction removed generalizing s with
  | nil =>
    obtain rfl := Option.some.inj ends
    exact ⟨rfl, rfl, rfl, SameVolumes.refl s⟩
  | cons mount removed ih =>
    rw [removeMountPoints, List.foldlM_cons] at ends
    obtain ⟨u, turn, rest⟩ := Option.bind_eq_some_iff.mp ends
    obtain ⟨found, finds, gone⟩ := Option.bind_eq_some_iff.mp turn
    have first : DrivesRemoved mount.uri.toList s u := by
      refine removeMountPoint_turn numbered finds ?_
      cases found with
      | none => exact gone
      | some drive => exact gone
    have later := ih (first.numbered numbered) rest
    refine ⟨?_, later.counter.trans first.counter, later.last.trans first.last, first.volumes.trans later.volumes⟩
    rw [later.drives, first.drives]
    cases known : mount.uri with
    | none => rw [List.filterMap_cons_none known]; rfl
    | some uri => rw [List.filterMap_cons_some known]; rfl

/-- What is there after some mount points were added: a new drive for each that is for users. -/
structure DrivesAdded (mounts : List MountPoint) (s t : VolumeMonitor) : Prop where
  drives : ∃ created, t.fstabDrives = created ++ s.fstabDrives ∧
    created.map Drive.facts = (mounts.filter MountPoint.forUsers).reverse.map MountPoint.facts
  volumes : SameVolumes s t
  numbered : Numbered t

theorem connected_numbered {s t : VolumeMonitor} {drive : Drive} (numbered : Numbered s) (id : drive.id = s.driveIdCounter)
    (volumes : SameVolumes s t) (drives : t.fstabDrives = s.fstabDrives) (counter : t.driveIdCounter = s.driveIdCounter + 1) :
    Numbered (connected t drive) := by
  have ids : driveIds (connected t drive) = s.driveIdCounter :: driveIds s := by
    rw [← id, driveIds, driveIds, ← drives]
    rfl
  have same : volumeIds (connected t drive) = volumeIds s := @volumeIds_same s t volumes
  refine ⟨same ▸ numbered.volumes, fun other there => ?_, ?_, fun other there => ?_⟩
  · rw [same] at there
    exact Nat.lt_of_lt_of_eq (numbered.volumesBelow other there) volumes.counter.symm
  · rw [ids]
    exact List.nodup_cons.mpr ⟨fun there => absurd (numbered.drivesBelow _ there) (Nat.lt_irrefl _), numbered.drives⟩
  · rw [ids] at there
    have bound : (connected t drive).driveIdCounter = s.driveIdCounter + 1 := counter
    rw [bound]
    rcases List.mem_cons.mp there with rfl | before
    · exact Nat.lt_succ_self _
    · exact Nat.lt_succ_of_lt (numbered.drivesBelow other before)

theorem createDriveFromMountPoint_none {around : Surroundings} {s : VolumeMonitor} {mount : MountPoint}
    (nothing : createDriveFromMountPoint around s mount = some none) : mount.forUsers = false := by
  rw [createDriveFromMountPoint] at nothing
  split at nothing
  · rename_i refused
    unfold MountPoint.forUsers
    cases loop : mount.isLoopback with
    | true => rw [Bool.not_true, Bool.and_false]
    | false =>
      rw [loop, Bool.false_or, Bool.not_eq_true', Bool.or_eq_false_iff] at refused
      rw [refused.1, Bool.false_and]
  · obtain ⟨name, -, nothing⟩ := Option.bind_eq_some_iff.mp nothing
    obtain ⟨found, -, nothing⟩ := Option.bind_eq_some_iff.mp nothing
    cases found with
    | none => cases nothing
    | some volume =>
      dsimp only at nothing
      split at nothing <;> cases nothing

theorem createDriveFromMountPoint_some {around : Surroundings} {s : VolumeMonitor} {mount : MountPoint}
    {made : Drive × MountPoint × VolumeMonitor} (created : createDriveFromMountPoint around s mount = some (some made))
    (usual : mount.forUsers = false → mount.isLoopback = true ∨ (ascii "/vol/").isPrefixOf mount.devicePath = false) :
    mount.forUsers = true := by
  rw [createDriveFromMountPoint] at created
  split at created
  · cases created
  · rename_i taken
    by_contra other
    have other := Bool.eq_false_iff.mpr other
    rcases usual other with loop | elsewhere
    · rw [loop, Bool.true_or] at taken
      exact taken rfl
    · unfold MountPoint.forUsers at other
      rw [elsewhere, Bool.or_false, Bool.or_eq_true, not_or, Bool.not_eq_true, Bool.not_eq_true', Bool.not_eq_false] at taken
      rw [taken.1, taken.2] at other
      cases other

theorem addMountPoints_added {around : Surroundings} {newFstab newFstab' : List MountPoint} (added : List (MountPoint × Nat))
    (usual : ∀ entry ∈ added, entry.1.forUsers = false →
      entry.1.isLoopback = true ∨ (ascii "/vol/").isPrefixOf entry.1.devicePath = false)
    (plain : ∀ entry ∈ added, entry.1.forUsers = true → needsFixup entry.1.devicePath entry.1.mountPath = false)
    (placed : ∀ entry ∈ added, newFstab[entry.2]? = some entry.1) {s t : VolumeMonitor} (numbered : Numbered s)
    (ends : addMountPoints around s newFstab added = some (t, newFstab')) :
    newFstab' = newFstab ∧ DrivesAdded (added.map Prod.fst) s t := by
  induction added generalizing s newFstab with
  | nil =>
    cases Option.some.inj ends
    exact ⟨rfl, ⟨[], rfl, rfl⟩, SameVolumes.refl _, numbered⟩
  | cons entry added ih =>
    obtain ⟨mount, place⟩ := entry
    rw [addMountPoints] at ends
    obtain ⟨made, created, ends⟩ := Option.bind_eq_some_iff.mp ends
    have usual' := fun entry there => usual entry (List.mem_cons_of_mem _ there)
    have plain' := fun entry there => plain entry (List.mem_cons_of_mem _ there)
    have placed' := fun entry there => placed entry (List.mem_cons_of_mem _ there)
    cases made with
    | none =>
      have refused := createDriveFromMountPoint_none created
      obtain ⟨same_table, ⟨made, rest, facts⟩, volumes, numbered'⟩ := ih usual' plain' placed' numbered ends
      refine ⟨same_table, ⟨made, rest, ?_⟩, volumes, numbered'⟩
      rw [List.map_cons, List.filter_cons_of_neg (Bool.eq_false_iff.mp refused)]
      exact facts
    | some made =>
      have taken := createDriveFromMountPoint_some created (usual _ List.mem_cons_self)
      obtain ⟨drive, mount', u⟩ := made
      obtain ⟨unfixed, facts, id, volumes, drives, counter, last⟩ :=
        createDriveFromMountPoint_effect (plain _ List.mem_cons_self taken) created
      obtain rfl : mount = mount' := unfixed.symm
      have kept : newFstab.set place mount = newFstab := set_same (placed _ List.mem_cons_self)
      dsimp only at ends
      rw [kept] at ends
      obtain ⟨same_table, ⟨made, rest, facts'⟩, volumes', numbered'⟩ :=
        ih usual' plain' placed' (connected_numbered numbered id volumes drives counter) ends
      have kept_volumes : SameVolumes s t :=
        ⟨volumes'.mtab.trans volumes.mtab, volumes'.servers.trans volumes.servers, volumes'.vfs.trans volumes.vfs,
          volumes'.counter.trans volumes.counter, volumes'.last.trans volumes.last⟩
      refine ⟨same_table, ⟨made ++ [{ drive with isConnected := true }], ?_, ?_⟩, kept_volumes, numbered'⟩
      · rw [rest, List.append_assoc, ← drives]
        rfl
      · rw [List.map_append, facts', List.map_cons, List.map_cons, List.filter_cons_of_pos taken, List.reverse_cons,
          List.map_append]
        exact congrArg (_ ++ [·]) facts

theorem coe_forUsers (l : List MountPoint) :
    (l : Multiset MountPoint).filter (MountPoint.forUsers ·) = ((l.filter MountPoint.forUsers : List MountPoint) : Multiset MountPoint) := by
  simp [Multiset.filter_coe]

theorem having_uris (removed : List MountPoint) (uri : Bytes) :
    (having id (some uri) ((removed.filterMap MountPoint.uri).map some)).length =
      (having MountPoint.uri (some uri) removed).length := by
  induction removed with
  | nil => rfl
  | cons mount removed ih =>
    cases known : mount.uri with
    | none => rw [List.filterMap_cons_none known, ih, having_cons_of_ne (by simp [known])]
    | some other =>
      rw [List.filterMap_cons_some known, List.map_cons]
      by_cases here : other = uri
      · rw [@having_cons_of_eq _ _ _ id (some uri) (some other) (congrArg some here), List.length_cons, ih,
          having_cons_of_eq (by simp [known, here]), List.length_cons]
      · rw [@having_cons_of_ne _ _ _ id (some uri) (some other) (fun same => here (Option.some.inj same)), ih,
          having_cons_of_ne (by simp [known, here])]

/-- What is left when the drives of the removed entries went. -/
theorem drives_removed_exact {s t : VolumeMonitor} {table removed : List MountPoint} (follows : FollowsFstab s)
    (recognized : FstabRecognized s table) (gone : List.Perm removed (s.lastFstab.diff table))
    (ends : DrivesRemoved (removed.filterMap MountPoint.uri) s t) :
    (t.fstabDrives.map Drive.facts : Multiset DriveFacts) =
      (((s.lastFstab : Multiset MountPoint) ∩ (table : Multiset MountPoint)).filter (MountPoint.forUsers ·)).map
        MountPoint.facts := by
  have total : ((t.fstabDrives.map Drive.facts : Multiset DriveFacts) +
      ((removed.filter MountPoint.forUsers).map MountPoint.facts : Multiset DriveFacts)) =
      (s.fstabDrives.map Drive.facts : Multiset DriveFacts) := by
    rw [ends.drives]
    refine (@removeFirsts_exact _ _ _ _ _ Drive.activationUri Drive.facts Prod.fst (fun _ => rfl) _ _ _).mpr fun uri => ?_
    have mine : having Prod.fst uri ((removed.filter MountPoint.forUsers).map MountPoint.facts) =
        ((having MountPoint.uri uri removed).filter MountPoint.forUsers).map MountPoint.facts := by
      rw [having, having, List.filter_map, List.filter_filter, List.filter_filter]
      refine congrArg _ (List.filter_congr fun mount _ => ?_)
      exact Bool.and_comm _ _
    rw [mine]
    have same := gone.filter fun mount => decide (mount.uri = uri)
    cases uri with
    | none =>
      have nothing : (having id (none : Option Bytes) ((removed.filterMap MountPoint.uri).map some)).length = 0 := by
        rw [having, List.filter_map, List.length_map, List.length_eq_zero_iff, List.filter_eq_nil_iff]
        exact fun uri _ => by simp
      have nobody : (having MountPoint.uri none removed).filter MountPoint.forUsers = [] := by
        rw [List.filter_eq_nil_iff]
        intro mount there taken
        obtain ⟨listed, unknown⟩ := List.mem_filter.mp there
        exact recognized.absolute mount (gone.subset listed) taken (of_decide_eq_true unknown)
      rw [nothing, nobody]
      exact List.Perm.refl _
    | some uri =>
      have counted : (having id (some uri) ((removed.filterMap MountPoint.uri).map some)).length =
          (having MountPoint.uri (some uri) (s.lastFstab.diff table)).length :=
        (having_uris removed uri).trans same.length_eq
      rw [counted]
      exact (recognized.first uri).trans ((same.symm.filter _).map _)
  have parts : (s.lastFstab : Multiset MountPoint) =
      (removed : Multiset MountPoint) + ((s.lastFstab : Multiset MountPoint) ∩ (table : Multiset MountPoint)) := by
    rw [Multiset.coe_eq_coe.mpr gone, ← Multiset.coe_sub]
    exact (Multiset.sub_add_inter _ _).symm
  have all : (s.fstabDrives.map Drive.facts : Multiset DriveFacts) =
      ((s.lastFstab : Multiset MountPoint).filter (MountPoint.forUsers ·)).map MountPoint.facts :=
    (Multiset.coe_eq_coe.mpr follows.drives).trans (congrArg (Multiset.map MountPoint.facts) (coe_forUsers _).symm)
  have mapped := (congrArg (fun entries => (entries.filter (MountPoint.forUsers ·)).map MountPoint.facts) parts).trans
    ((congrArg (Multiset.map MountPoint.facts) (Multiset.filter_add _ _ _)).trans (Multiset.map_add _ _ _))
  rw [all] at total
  have split := total.trans mapped
  rw [Multiset.add_comm, coe_forUsers] at split
  exact Multiset.add_right_inj.mp split

/-- What an update of the mount points gives, if the entries that go are recognized. -/
theorem updateFstabDrives_follows {around : Surroundings} {table : List MountPoint} {s t : VolumeMonitor}
    (numbered : Numbered s) (follows : FollowsFstab s) (recognized : FstabRecognized s table)
    (update : updateFstabDrives around table s = some t) :
    (FollowsFstab t ∧ Numbered t ∧ SameVolumes s t) ∧
      List.Perm (t.fstabDrives.map Drive.facts) ((table.filter MountPoint.forUsers).map MountPoint.facts) := by
  have sorted := mergeSort_sorted mountPointCompare_orders table
  have perm := List.mergeSort_perm table fun a b => decide (mountPointCompare a b ≤ 0)
  unfold updateFstabDrives at update
  generalize table.mergeSort (fun a b => decide (mountPointCompare a b ≤ 0)) = newFstab at sorted perm update
  dsimp only at update
  generalize compared : diffSortedLists (fun a b => mountPointCompare a.1 b.1) s.lastFstab.zipIdx newFstab.zipIdx = diff
    at update
  obtain ⟨u, removal, update⟩ := Option.bind_eq_some_iff.mp update
  obtain ⟨⟨v, newFstab'⟩, addition, update⟩ := Option.bind_eq_some_iff.mp update
  obtain rfl := Option.some.inj update
  obtain ⟨gone, new, placed⟩ := diff_tables mountPointCompare_orders follows.sorted sorted perm compared
  have removed := removeMountPoints_removed numbered removal
  have left := drives_removed_exact follows recognized gone removed
  obtain ⟨rfl, ⟨created, drives, facts⟩, volumes, numbered'⟩ := addMountPoints_added diff.added
    (fun entry there => recognized.usual _ (new.subset (List.mem_map_of_mem there)))
    (fun entry there => recognized.plain _ (new.subset (List.mem_map_of_mem there)))
    placed (removed.numbered numbered) addition
  have created_facts : (created.map Drive.facts : Multiset DriveFacts) =
      (((table : Multiset MountPoint) - s.lastFstab).filter (MountPoint.forUsers ·)).map MountPoint.facts := by
    rw [facts, Multiset.coe_sub, coe_forUsers, Multiset.map_coe, Multiset.coe_eq_coe]
    exact ((List.reverse_perm _).trans (new.filter _)).map _
  have all : List.Perm (v.fstabDrives.map Drive.facts) ((table.filter MountPoint.forUsers).map MountPoint.facts) := by
    rw [← Multiset.coe_eq_coe, drives, List.map_append, ← Multiset.coe_add, created_facts, left, Multiset.inter_comm,
      ← Multiset.map_add, ← Multiset.filter_add, Multiset.sub_add_inter, coe_forUsers, Multiset.map_coe]
  have same := removed.volumes.trans volumes
  exact ⟨⟨⟨sorted, all.trans ((perm.symm.filter _).map _)⟩, ⟨numbered'.volumes, numbered'.volumesBelow, numbered'.drives,
    numbered'.drivesBelow⟩, same.mtab, same.servers, same.vfs, same.counter, same.last⟩, all⟩

/-- What an update of the connected servers leaves alone. -/
structure OtherVolumesKept (s t : VolumeMonitor) : Prop where
  mtab : t.mtabVolumes = s.mtabVolumes
  last : t.lastMtab = s.lastMtab
  drives : SameDrives s t
  numbered : Numbered t

theorem OtherVolumesKept.trans {s t u : VolumeMonitor} (first : OtherVolumesKept s t) (second : OtherVolumesKept t u) :
    OtherVolumesKept s u :=
  ⟨second.mtab.trans first.mtab, second.last.trans first.last, first.drives.trans second.drives, second.numbered⟩

theorem unmounted_server {s t : VolumeMonitor} {volume : Volume} (numbered : Numbered s) (there : volume ∈ s.serverVolumes)
    (gone : unmounted s volume = some t) : OtherVolumesKept s t := by
  obtain ⟨drives, rfl, same⟩ := unmounted_effect gone
  have ids := numbered.volumes
  rw [volumeIds, List.map_append, List.map_append, List.append_assoc, List.nodup_append] at ids
  have mtab : without volume.id s.mtabVolumes = s.mtabVolumes :=
    removeFirst_of_notMem fun here => ids.2.2 _ here _ (List.mem_append_left _ (List.mem_map_of_mem there)) rfl
  refine ⟨mtab, rfl, ⟨same, rfl, rfl⟩, numbered.fewer ?_ ?_ (Nat.le_refl _) (Nat.le_refl _)⟩
  · exact ((List.eraseP_sublist.append List.eraseP_sublist).append List.eraseP_sublist).map _
  · exact (@driveIds_outline s { s with fstabDrives := drives } same).symm ▸ List.Sublist.refl _

theorem removeServers_kept {removed : List ConnectedServer} {s t : VolumeMonitor} (numbered : Numbered s)
    (ends : removeServers s removed = some t) : OtherVolumesKept s t := by
  refine Transition.foldlM_keeps ends ⟨rfl, rfl, SameDrives.refl s, numbered⟩ fun u server v _ kept turn => ?_
  cases found : findConnectedServerByGconfId u server.id with
  | none =>
    rw [found] at turn
    obtain rfl := Option.some.inj turn
    exact kept
  | some volume =>
    rw [found] at turn
    exact kept.trans (unmounted_server kept.numbered (List.mem_of_find?_eq_some found) turn)

theorem addServers_kept {added : List ConnectedServer} {s t : VolumeMonitor} (numbered : Numbered s)
    (ends : addServers s added = some t) : OtherVolumesKept s t := by
  refine Transition.foldlM_keeps ends ⟨rfl, rfl, SameDrives.refl s, numbered⟩ fun u server v _ kept turn => ?_
  obtain ⟨⟨volume, w⟩, created, turn⟩ := Option.bind_eq_some_iff.mp turn
  obtain rfl := Option.some.inj turn
  obtain ⟨id, type, rfl⟩ := createVolumeFromConnectedServer_effect created
  have known : Numbered (mounted { u with volumeIdCounter := u.volumeIdCounter + 1 } volume) :=
    mounted_numbered kept.numbered volume id rfl
  rw [mounted_server _ type] at known ⊢
  exact kept.trans ⟨rfl, rfl, ⟨rfl, rfl, rfl⟩, known⟩

end GnomeVfs.Volumes
