import GnomeVfs.VolumeLinks

/- The runs of the volume monitor: the daemon survives each update whose entries are recognized, and its
volumes and drives follow the tables. -/
namespace GnomeVfs.Volumes

open Mounts KeyedRemoval

section Runs

/-- The volumes and the drives correspond to the last tables. -/
structure Follows (s : VolumeMonitor) : Prop where
  numbered : Numbered s
  linked : Linked s
  mtab : FollowsMtab s
  fstab : FollowsFstab s

theorem FollowsFstab.same {s t : VolumeMonitor} (follows : FollowsFstab s) (same : SameDrives s t) : FollowsFstab t := by
  have facts := congrArg (List.map Prod.snd) same.drives
  rw [List.map_map, List.map_map] at facts
  have kept : t.fstabDrives.map Drive.facts = s.fstabDrives.map Drive.facts := facts
  exact ⟨same.last ▸ follows.sorted, by rw [kept, same.last]; exact follows.drives⟩

theorem FollowsMtab.same {s t : VolumeMonitor} (follows : FollowsMtab s)
    (outlines : t.mtabVolumes.map Volume.outline = s.mtabVolumes.map Volume.outline) (last : t.lastMtab = s.lastMtab) :
    FollowsMtab t := by
  have facts := congrArg (List.map Prod.snd) outlines
  rw [List.map_map, List.map_map] at facts
  have kept : t.mtabVolumes.map Volume.facts = s.mtabVolumes.map Volume.facts := facts
  exact ⟨last ▸ follows.sorted, by rw [kept, last]; exact follows.volumes⟩

/-- The condition on an update. -/
def Recognized (s : VolumeMonitor) : Update → Prop
  | .mtab _ table => MtabRecognized s table
  | .fstab _ table => FstabRecognized s table
  | .servers _ => True

variable {around : Surroundings} {s : VolumeMonitor}

theorem updateMtabVolumes_survives {table : List Mount} (numbered : Numbered s) (linked : Linked s) (follows : FollowsMtab s)
    (recognized : MtabRecognized s table) : ∃ t, updateMtabVolumes around table s = some t ∧ Linked t := by
  have sorted := mergeSort_sorted mountCompare_orders table
  have perm := List.mergeSort_perm table fun a b => decide (mountCompare a b ≤ 0)
  unfold updateMtabVolumes
  generalize table.mergeSort (fun a b => decide (mountCompare a b ≤ 0)) = newMtab at sorted perm ⊢
  dsimp only
  generalize compared : diffSortedLists (fun a b => mountCompare a.1 b.1) s.lastMtab.zipIdx newMtab.zipIdx = diff
  obtain ⟨gone, new, -⟩ := diff_tables mountCompare_orders follows.sorted sorted perm compared
  obtain ⟨uris, known⟩ := exists_uris fun mount there => recognized.absolute mount (gone.subset there)
  obtain ⟨u, removal, linked'⟩ := removeMounts_survives known numbered linked
  have removed := removeMounts_removed known numbered removal
  have same : u.fstabDrives.map Drive.activationUri = s.fstabDrives.map Drive.activationUri := by
    have urls := congrArg (List.map fun outline : Nat × DriveFacts => outline.2.1) removed.drives.drives
    rwa [List.map_map, List.map_map] at urls
  obtain ⟨devices, asked, as_many, -⟩ := devices_paired around.attempts (diff.added.map fun entry => entry.1.unixMount)
  rw [List.length_map] at asked as_many
  have walked := walkDevices_total as_many
  have entries := walkDevices_fst walked
  have among : ∀ entry ∈ diff.added.zip (devices.map UInt64.toUInt32), entry.1.1 ∈ table.diff s.lastMtab :=
    fun entry there => new.subset (List.mem_map_of_mem (entries ▸ List.mem_map_of_mem there))
  obtain ⟨v, newMtab', addition, linked''⟩ := @addMounts_survives around u newMtab
    (diff.added.zip (devices.map UInt64.toUInt32)) (fun entry there => recognized.plain _ (among entry there))
    (fun entry there => same ▸ recognized.named _ (among entry there)) (removed.numbered numbered) linked'
  refine ⟨{ v with lastMtab := newMtab' }, ?_, ⟨linked''.known, linked''.listed, linked''.present, linked''.once, linked''.servers⟩⟩
  rw [removal, asked, Option.bind_eq_bind, Option.bind_some, Option.bind_eq_bind, Option.bind_some, walked,
    Option.bind_eq_bind, Option.bind_some, addition]
  rfl

theorem updateFstabDrives_survives {table : List MountPoint} (numbered : Numbered s) (linked : Linked s)
    (follows : FollowsFstab s) (recognized : FstabRecognized s table) :
    ∃ t, updateFstabDrives around table s = some t ∧ Linked t := by
  have sorted := mergeSort_sorted mountPointCompare_orders table
  have perm := List.mergeSort_perm table fun a b => decide (mountPointCompare a b ≤ 0)
  unfold updateFstabDrives
  generalize table.mergeSort (fun a b => decide (mountPointCompare a b ≤ 0)) = newFstab at sorted perm ⊢
  dsimp only
  generalize compared : diffSortedLists (fun a b => mountPointCompare a.1 b.1) s.lastFstab.zipIdx newFstab.zipIdx = diff
  obtain ⟨gone, new, -⟩ := diff_tables mountPointCompare_orders follows.sorted sorted perm compared
  have as_many : ∀ uri : Bytes, (having MountPoint.uri (some uri) (diff.removed.map Prod.fst)).length =
      (having MountPoint.uri (some uri) (s.lastFstab.diff table)).length := fun uri => (gone.filter _).length_eq
  obtain ⟨u, removal, linked'⟩ := removeMountPoints_survives numbered linked
    (fun mount there => recognized.asked mount (gone.subset there))
    (fun uri drive there => recognized.single uri drive (as_many uri ▸ there))
  have removed := removeMountPoints_removed numbered removal
  have same : u.mtabVolumes.map Volume.activationUri = s.mtabVolumes.map Volume.activationUri := by
    have urls := congrArg (List.map fun outline : Nat × Facts => outline.2.1) removed.volumes.mtab
    rwa [List.map_map, List.map_map] at urls
  have among : ∀ entry ∈ diff.added, entry.1 ∈ table.diff s.lastFstab :=
    fun entry there => new.subset (List.mem_map_of_mem there)
  obtain ⟨v, newFstab', addition, linked''⟩ := @addMountPoints_survives around u newFstab diff.added
    (fun entry there => recognized.usual _ (among entry there)) (fun entry there => recognized.plain _ (among entry there))
    (fun entry there => same ▸ recognized.named _ (among entry there)) (removed.numbered numbered) linked'
  refine ⟨{ v with lastFstab := newFstab' }, ?_, ⟨linked''.known, linked''.listed, linked''.present, linked''.once, linked''.servers⟩⟩
  rw [removal, Option.bind_eq_bind, Option.bind_some, addition]
  rfl

theorem updateConnectedServers_survives (list : List ConnectedServer) (numbered : Numbered s) (linked : Linked s) :
    ∃ t, updateConnectedServers list s = some t ∧ Linked t := by
  unfold updateConnectedServers
  dsimp only
  generalize list.mergeSort (fun a b => decide (connectedServerCompare a b ≤ 0)) = newServers
  generalize diffSortedLists connectedServerCompare s.lastConnectedServers newServers = diff
  obtain ⟨u, removal, -, linked'⟩ := @removeServers_survives s diff.removed numbered linked
  obtain ⟨v, addition, linked''⟩ := addServers_survives diff.added linked'
  refine ⟨{ v with lastConnectedServers := newServers }, ?_,
    ⟨linked''.known, linked''.listed, linked''.present, linked''.once, linked''.servers⟩⟩
  rw [removal, Option.bind_eq_bind, Option.bind_some, addition]
  rfl

theorem step_follows {update : Update} (follows : Follows s) (recognized : Recognized s update) :
    ∃ t, step s update = some t ∧ Follows t := by
  cases update with
  | mtab around table =>
    obtain ⟨t, happens, linked⟩ := @updateMtabVolumes_survives around s table follows.numbered follows.linked follows.mtab recognized
    obtain ⟨⟨mtab, numbered, drives⟩, -⟩ := updateMtabVolumes_follows follows.numbered follows.mtab recognized happens
    exact ⟨t, happens, numbered, linked, mtab, follows.fstab.same drives⟩
  | fstab around table =>
    obtain ⟨t, happens, linked⟩ := @updateFstabDrives_survives around s table follows.numbered follows.linked follows.fstab recognized
    obtain ⟨⟨fstab, numbered, volumes⟩, -⟩ := updateFstabDrives_follows follows.numbered follows.fstab recognized happens
    exact ⟨t, happens, numbered, linked, follows.mtab.same volumes.mtab volumes.last, fstab⟩
  | servers list =>
    obtain ⟨t, happens, linked⟩ := updateConnectedServers_survives list follows.numbered follows.linked
    refine ⟨t, happens, ?_⟩
    obtain ⟨u, removal, happens⟩ := Option.bind_eq_some_iff.mp happens
    obtain ⟨v, addition, happens⟩ := Option.bind_eq_some_iff.mp happens
    obtain rfl := Option.some.inj happens
    have removed := removeServers_kept follows.numbered removal
    have kept := removed.trans (addServers_kept removed.numbered addition)
    refine ⟨⟨kept.numbered.volumes, kept.numbered.volumesBelow, kept.numbered.drives, kept.numbered.drivesBelow⟩, linked, ?_, ?_⟩
    · exact @FollowsMtab.same s _ follows.mtab (congrArg _ kept.mtab) kept.last
    · exact @FollowsFstab.same s _ follows.fstab ⟨kept.drives.drives, kept.drives.counter, kept.drives.last⟩

theorem start_follows : Follows start :=
  ⟨⟨List.nodup_nil, fun _ there => absurd there List.not_mem_nil, List.nodup_nil, fun _ there => absurd there List.not_mem_nil⟩,
    ⟨fun _ there => absurd there List.not_mem_nil, fun _ there => absurd there List.not_mem_nil,
      fun _ there => absurd there List.not_mem_nil, fun _ there => absurd there List.not_mem_nil,
      fun _ there => absurd there List.not_mem_nil⟩,
    ⟨List.Pairwise.nil, List.Perm.refl _⟩, ⟨List.Pairwise.nil, List.Perm.refl _⟩⟩

/-- As long as the entries that go are recognized by their paths, the daemon goes on, the volumes and the
drives correspond to the tables after each update, and the volumes of entries that stay are the same ones. -/
theorem tables_followed (reached : Transition.Run step Recognized start s) :
    List.Perm (s.mtabVolumes.map Volume.facts) (s.lastMtab.map Mount.facts) ∧
      List.Perm (s.fstabDrives.map Drive.facts) ((s.lastFstab.filter MountPoint.forUsers).map MountPoint.facts) ∧
      (∀ around table, Recognized s (.mtab around table) → ∃ t, updateMtabVolumes around table s = some t ∧
        List.Perm (t.mtabVolumes.map Volume.facts) (table.map Mount.facts) ∧ VolumesKept s t table) ∧
      (∀ around table, Recognized s (.fstab around table) → ∃ t, updateFstabDrives around table s = some t ∧
        List.Perm (t.fstabDrives.map Drive.facts) ((table.filter MountPoint.forUsers).map MountPoint.facts)) ∧
      ∀ list, ∃ t, updateConnectedServers list s = some t := by
  have follows : Follows s := reached.keeps start_follows fun _ _ _ follows fits happens => by
    obtain ⟨t, same, follows'⟩ := step_follows follows fits
    exact Option.some.inj (same.symm.trans happens) ▸ follows'
  refine ⟨follows.mtab.volumes, follows.fstab.drives, fun around table recognized => ?_, fun around table recognized => ?_,
    fun list => ?_⟩
  · obtain ⟨t, happens, -⟩ := updateMtabVolumes_survives follows.numbered follows.linked follows.mtab recognized
    exact ⟨t, happens, (updateMtabVolumes_follows follows.numbered follows.mtab recognized happens).2⟩
  · obtain ⟨t, happens, -⟩ := updateFstabDrives_survives follows.numbered follows.linked follows.fstab recognized
    exact ⟨t, happens, (updateFstabDrives_follows follows.numbered follows.fstab recognized happens).2⟩
  · obtain ⟨t, happens, -⟩ := updateConnectedServers_survives list follows.numbered follows.linked
    exact ⟨t, happens⟩

/-- The system tells nothing about devices, and texts are left as they are. -/
def plainSurroundings : Surroundings :=
  { gettext := id, makeUtf8 := id, filesystemVolumeName := id, driveName := id, cdromType := fun _ => .other,
    attempts := fun _ => .pipeFails }

def partition (mountPath device : Bytes) : Mount := ⟨mountPath, device, ascii "ext3", false⟩

def partitionVolume (id : Nat) (mountPath device name : Bytes) : Volume :=
  { id := id, volumeType := .mountpoint, deviceType := .harddrive, devicePath := some device, unixDevice := 0,
    activationUri := some (ascii "file://" ++ mountPath), filesystemType := some (ascii "ext3"), isReadOnly := false,
    isMounted := true, displayName := name, isUserVisible := false, gconfId := none, drive := none }

/-- A mount point that a user may mount. -/
def userMountPoint (mountPath device : Bytes) : MountPoint := ⟨mountPath, device, ascii "ext3", none, false, true, false⟩

def userDrive (id : Nat) (mountPath device : Bytes) (volumes : List Nat) : Drive :=
  { id := id, deviceType := .harddrive, devicePath := some device, activationUri := some (ascii "file://" ++ mountPath),
    isConnected := true, displayName := mountPath, isUserVisible := true, volumes := volumes }

def mountedBefore : List Mount := [partition (ascii "/m") (ascii "/dev/sda1"), partition (ascii "/n") (ascii "/dev/sdb1")]

def mountedAfter : List Mount := [partition (ascii "/k") (ascii "/dev/sdc1"), partition (ascii "/m") (ascii "/dev/sda1")]

def drivesBefore : List MountPoint := [userMountPoint (ascii "/c") (ascii "/dev/sr0"), userMountPoint (ascii "/m") (ascii "/dev/sda1")]

def drivesRead : VolumeMonitor :=
  { start with
    fstabDrives := [userDrive 2 (ascii "/c") (ascii "/dev/sr0") [], userDrive 1 (ascii "/m") (ascii "/dev/sda1") []]
    lastFstab := drivesBefore
    driveIdCounter := 3 }

def volumesRead : VolumeMonitor :=
  { drivesRead with
    mtabVolumes := [{ partitionVolume 2 (ascii "/m") (ascii "/dev/sda1") (ascii "m") with isUserVisible := true, drive := some 1 },
      partitionVolume 1 (ascii "/n") (ascii "/dev/sdb1") (ascii "n")]
    fstabDrives := [userDrive 2 (ascii "/c") (ascii "/dev/sr0") [], userDrive 1 (ascii "/m") (ascii "/dev/sda1") [2]]
    lastMtab := mountedBefore
    volumeIdCounter := 3 }

/-- The drive of `/m` is gone, and its volume is not. -/
def driveGone : VolumeMonitor :=
  { volumesRead with
    mtabVolumes := [{ partitionVolume 2 (ascii "/m") (ascii "/dev/sda1") (ascii "m") with isUserVisible := true },
      partitionVolume 1 (ascii "/n") (ascii "/dev/sdb1") (ascii "n")]
    fstabDrives := [userDrive 2 (ascii "/c") (ascii "/dev/sr0") []]
    lastFstab := [userMountPoint (ascii "/c") (ascii "/dev/sr0")] }

theorem drivesRead_step : step start (.fstab plainSurroundings drivesBefore) = some drivesRead := by
  have sorted : drivesBefore.mergeSort (fun a b => mountPointCompare a b ≤ 0) = drivesBefore :=
    List.mergeSort_of_pairwise (by decide)
  rw [step, updateFstabDrives, sorted]
  rfl

theorem volumesRead_step : step drivesRead (.mtab plainSurroundings mountedBefore) = some volumesRead := by
  have sorted : mountedBefore.mergeSort (fun a b => mountCompare a b ≤ 0) = mountedBefore :=
    List.mergeSort_of_pairwise (by decide)
  rw [step, updateMtabVolumes, sorted]
  rfl

theorem driveGone_step : step volumesRead (.fstab plainSurroundings driveGone.lastFstab) = some driveGone := by
  have sorted : driveGone.lastFstab.mergeSort (fun a b => mountPointCompare a b ≤ 0) = driveGone.lastFstab :=
    List.mergeSort_of_pairwise (by decide)
  rw [step, updateFstabDrives, sorted]
  rfl

theorem driveGone_run : Transition.Run step Recognized start driveGone := by
  have first : Recognized start (.fstab plainSurroundings drivesBefore) :=
    ⟨by decide, by decide, by decide, by decide, by decide, fun _ _ there => absurd there List.not_mem_nil,
      fun _ => List.Perm.refl _⟩
  have second : Recognized drivesRead (.mtab plainSurroundings mountedBefore) :=
    ⟨by decide, by decide, by decide, fun _ => List.Perm.refl _⟩
  have third : Recognized volumesRead (.fstab plainSurroundings driveGone.lastFstab) := by
    have gone : volumesRead.lastFstab.diff driveGone.lastFstab = [userMountPoint (ascii "/m") (ascii "/dev/sda1")] := by decide
    have others : ∀ uri : Bytes, uri ≠ ascii "file:///m" →
        having MountPoint.uri (some uri) [userMountPoint (ascii "/m") (ascii "/dev/sda1")] = [] :=
      fun uri other => @having_cons_of_ne _ _ _ MountPoint.uri (some uri) (userMountPoint (ascii "/m") (ascii "/dev/sda1"))
        (fun same => other (Option.some.inj same).symm) []
    refine ⟨by decide, by decide, by decide, by decide, by decide, fun uri => ?_, fun uri => ?_⟩
    · by_cases here : uri = ascii "file:///m"
      · rw [here, gone]
        decide
      · rw [gone, others uri here]
        exact fun _ there => absurd there List.not_mem_nil
    · by_cases here : uri = ascii "file:///m"
      · rw [here, gone]
        decide
      · rw [gone, others uri here]
        exact List.Perm.refl _
  exact .next _ (.next _ (.next _ .refl first drivesRead_step) second volumesRead_step) third driveGone_step

/-- The partition on `/n` goes, the one on `/k` comes, and the volume of the one on `/m` stays. -/
theorem changed_table_followed :
    List.Perm (driveGone.mtabVolumes.map Volume.facts) (mountedBefore.map Mount.facts) ∧
      List.Perm (driveGone.fstabDrives.map Drive.facts) [(some (ascii "file:///c"), some (ascii "/dev/sr0"))] ∧
      ∃ t, updateMtabVolumes plainSurroundings mountedAfter driveGone = some t ∧
        List.Perm (t.mtabVolumes.map Volume.facts) (mountedAfter.map Mount.facts) ∧ VolumesKept driveGone t mountedAfter := by
  have gone : driveGone.lastMtab.diff mountedAfter = [partition (ascii "/n") (ascii "/dev/sdb1")] := by decide
  have followed := tables_followed driveGone_run
  refine ⟨followed.1, followed.2.1, followed.2.2.1 plainSurroundings mountedAfter ⟨by decide, by decide, by decide, fun uri => ?_⟩⟩
  by_cases here : uri = some (ascii "file:///n")
  · rw [here, gone]
    decide
  · have nothing : having Mount.uri uri [partition (ascii "/n") (ascii "/dev/sdb1")] = [] :=
      @having_cons_of_ne _ _ _ Mount.uri uri (partition (ascii "/n") (ascii "/dev/sdb1")) (fun same => here same.symm) []
    rw [gone, nothing]
    exact List.Perm.refl _

def twoMounted : VolumeMonitor :=
  { start with
    mtabVolumes := [partitionVolume 2 (ascii "/m") (ascii "/dev/sda1") (ascii "m"),
      partitionVolume 1 (ascii "/m") (ascii "/dev/sdb1") (ascii "m")]
    lastMtab := [partition (ascii "/m") (ascii "/dev/sda1"), partition (ascii "/m") (ascii "/dev/sdb1")]
    volumeIdCounter := 3 }

def wrongOneLeft : VolumeMonitor :=
  { twoMounted with
    mtabVolumes := [partitionVolume 1 (ascii "/m") (ascii "/dev/sdb1") (ascii "m")]
    lastMtab := [partition (ascii "/m") (ascii "/dev/sda1")] }

theorem twoMounted_step :
    step start (.mtab plainSurroundings twoMounted.lastMtab) = some twoMounted := by
  have sorted : twoMounted.lastMtab.mergeSort (fun a b => mountCompare a b ≤ 0) = twoMounted.lastMtab :=
    List.mergeSort_of_pairwise (by decide)
  rw [step, updateMtabVolumes, sorted]
  rfl

theorem wrongOneLeft_step :
    step twoMounted (.mtab plainSurroundings wrongOneLeft.lastMtab) = some wrongOneLeft := by
  have sorted : wrongOneLeft.lastMtab.mergeSort (fun a b => mountCompare a b ≤ 0) = wrongOneLeft.lastMtab :=
    List.mergeSort_of_pairwise (by decide)
  rw [step, updateMtabVolumes, sorted]
  rfl

/-- Two partitions are mounted on one path. When `/dev/sdb1` goes, the volume of `/dev/sda1` is the one
that is unmounted. -/
theorem wrong_volume_unmounted :
    ¬ ∀ s, Transition.Run step (fun _ _ => True) start s →
      List.Perm (s.mtabVolumes.map Volume.facts) (s.lastMtab.map Mount.facts) := by
  intro follows
  have same := follows wrongOneLeft (.next _ (.next _ .refl True.intro twoMounted_step) True.intro wrongOneLeft_step)
  exact absurd same (by decide)

end Runs

end GnomeVfs.Volumes
