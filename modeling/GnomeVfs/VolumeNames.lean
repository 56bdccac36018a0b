import GnomeVfs.Transition
import GnomeVfs.UriPort
import GnomeVfs.VolumeMonitor

/- The display names of volumes and drives, which are made unique when a volume or a drive is created. -/
namespace GnomeVfs.Volumes

open Mounts

section Unique

/-- The names that are tried, one after the other. -/
def candidate (name : Bytes) : Nat → Bytes
  | 0 => name
  | k + 1 => numbered name (k + 2)

theorem candidate_injective (name : Bytes) : Function.Injective (candidate name) := by
  have longer : ∀ k, candidate name (k + 1) ≠ name := by
    intro k same
    have lengths := congrArg List.length same
    rw [candidate, numbered, List.length_append, List.length_append, List.length_append] at lengths
    have some_text : 0 < (ascii " (").length := by decide
    omega
  intro i j same
  cases i with
  | zero =>
    cases j with
    | zero => rfl
    | succ j => exact absurd same.symm (longer j)
  | succ i =>
    cases j with
    | zero => exact absurd same (longer i)
    | succ j =>
      have whole : name ++ ascii " (" ++ decimal (i + 2) ++ ascii ")" = name ++ ascii " (" ++ decimal (j + 2) ++ ascii ")" := same
      have number := decimal_injective (List.append_cancel_left (List.append_cancel_right whole))
      omega

variable {isUnique : Bytes → Bool} {name : Bytes}

theorem uniquifyFrom_isUnique {tries index : Nat} {tried unique : Bytes}
    (ends : uniquifyFrom isUnique name tries index tried = some unique) : isUnique unique = true := by
  induction tries generalizing index tried with
  | zero => cases ends
  | succ tries ih =>
    rw [uniquifyFrom] at ends
    split at ends
    · rename_i free
      obtain rfl := Option.some.inj ends
      exact free
    · exact ih ends

/-- A loop that does not end in time found all names taken. -/
theorem uniquifyFrom_none {tries k : Nat} (open_ended : uniquifyFrom isUnique name tries (k + 1) (candidate name k) = none) :
    ∀ i < tries, isUnique (candidate name (k + i)) = false := by
  induction tries generalizing k with
  | zero => exact fun i small => absurd small (Nat.not_lt_zero i)
  | succ tries ih =>
    rw [uniquifyFrom] at open_ended
    split at open_ended
    · cases open_ended
    · rename_i used
      intro i small
      cases i with
      | zero => exact Bool.eq_false_iff.mpr used
      | succ i =>
        have later := ih open_ended i (Nat.lt_of_succ_lt_succ small)
        rwa [Nat.add_right_comm] at later

theorem uniquifyFrom_ends {taken : List Bytes} (used : ∀ tried, isUnique tried = false → tried ∈ taken) :
    ∃ unique, uniquifyFrom isUnique name (taken.length + 1) 1 name = some unique := by
  cases ends : uniquifyFrom isUnique name (taken.length + 1) 1 name with
  | some unique => exact ⟨unique, rfl⟩
  | none =>
    have all := @uniquifyFrom_none isUnique name (taken.length + 1) 0 ends
    have nodup : ((List.range (taken.length + 1)).map (candidate name)).Nodup :=
      List.nodup_range.map (candidate_injective name)
    have inside : (List.range (taken.length + 1)).map (candidate name) ⊆ taken := by
      intro tried there
      obtain ⟨i, small, rfl⟩ := List.mem_map.mp there
      have one := all i (List.mem_range.mp small)
      rw [Nat.zero_add] at one
      exact used _ one
    have short := (nodup.subperm inside).length_le
    rw [List.length_map, List.length_range] at short
    omega

end Unique

/-- What other volumes see of a volume: its name, and whether it is shown. -/
def Volume.look (volume : Volume) : Bytes × Bool := (volume.displayName, volume.isUserVisible)

def Drive.look (drive : Drive) : Bytes × Bool := (drive.displayName, drive.isUserVisible)

def volumeLooks (s : VolumeMonitor) : List (Bytes × Bool) := (s.mtabVolumes ++ s.serverVolumes ++ s.vfsVolumes).map Volume.look

def driveLooks (s : VolumeMonitor) : List (Bytes × Bool) := (s.fstabDrives ++ s.vfsDrives).map Drive.look

/-- The names of what is shown. -/
def shown (looks : List (Bytes × Bool)) : List Bytes := (looks.filter Prod.snd).map Prod.fst

theorem shown_volumes (s : VolumeMonitor) : shown (volumeLooks s) = (visibleVolumes s).map Volume.displayName := by
  rw [shown, volumeLooks, List.filter_map, List.map_map]
  rfl

theorem shown_drives (s : VolumeMonitor) : shown (driveLooks s) = (visibleDrives s).map Drive.displayName := by
  rw [shown, driveLooks, List.filter_map, List.map_map]
  rfl

theorem shown_sublist {looks looks' : List (Bytes × Bool)} (fewer : List.Sublist looks' looks) :
    List.Sublist (shown looks') (shown looks) :=
  (fewer.filter _).map _

theorem strcmp_eq_zero {a b : Bytes} : strcmp a b = 0 ↔ a = b := strcmp_orders.zero a b

variable {s : VolumeMonitor}

theorem volumeNameIsUnique_iff {name : Bytes} :
    volumeNameIsUnique s name = true ↔ name ∉ shown (volumeLooks s) := by
  rw [shown_volumes, List.mem_map]
  simp only [volumeNameIsUnique, Bool.and_eq_true, Bool.not_eq_true', List.any_eq_false, Bool.and_eq_true,
    decide_eq_true_eq, strcmp_eq_zero, not_and, visibleVolumes, List.mem_filter, List.mem_append, not_exists]
  constructor
  · rintro ⟨⟨mtab, servers⟩, vfs⟩ volume listed same
    rcases listed.1 with (inMtab | inServers) | inVfs
    · exact mtab volume inMtab listed.2 same
    · exact servers volume inServers listed.2 same
    · exact vfs volume inVfs listed.2 same
  · intro free
    exact ⟨⟨fun volume there visible same => free volume ⟨Or.inl (Or.inl there), visible⟩ same,
      fun volume there visible same => free volume ⟨Or.inl (Or.inr there), visible⟩ same⟩,
      fun volume there visible same => free volume ⟨Or.inr there, visible⟩ same⟩

theorem driveNameIsUnique_iff {name : Bytes} :
    driveNameIsUnique s name = true ↔ name ∉ shown (driveLooks s) := by
  rw [shown_drives, List.mem_map]
  simp only [driveNameIsUnique, Bool.and_eq_true, Bool.not_eq_true', List.any_eq_false, Bool.and_eq_true,
    decide_eq_true_eq, strcmp_eq_zero, not_and, visibleDrives, List.mem_filter, List.mem_append, not_exists]
  constructor
  · rintro ⟨fstab, vfs⟩ drive listed same
    rcases listed.1 with inFstab | inVfs
    · exact fstab drive inFstab listed.2 same
    · exact vfs drive inVfs listed.2 same
  · intro free
    exact ⟨fun drive there visible same => free drive ⟨Or.inl there, visible⟩ same,
      fun drive there visible same => free drive ⟨Or.inr there, visible⟩ same⟩

theorem uniquifyVolumeName_fresh (s : VolumeMonitor) (name : Bytes) :
    ∃ unique, uniquifyVolumeName s ((visibleVolumes s).length + 1) name = some unique ∧ unique ∉ shown (volumeLooks s) := by
  have size : (visibleVolumes s).length = (shown (volumeLooks s)).length := by rw [shown_volumes, List.length_map]
  obtain ⟨unique, ends⟩ := @uniquifyFrom_ends (volumeNameIsUnique s) name (shown (volumeLooks s))
    fun tried used => not_not.mp (mt volumeNameIsUnique_iff.mpr (Bool.eq_false_iff.mp used))
  rw [size]
  exact ⟨unique, ends, volumeNameIsUnique_iff.mp (uniquifyFrom_isUnique ends)⟩

theorem uniquifyDriveName_fresh (s : VolumeMonitor) (name : Bytes) :
    ∃ unique, uniquifyDriveName s ((visibleDrives s).length + 1) name = some unique ∧ unique ∉ shown (driveLooks s) := by
  have size : (visibleDrives s).length = (shown (driveLooks s)).length := by rw [shown_drives, List.length_map]
  obtain ⟨unique, ends⟩ := @uniquifyFrom_ends (driveNameIsUnique s) name (shown (driveLooks s))
    fun tried used => not_not.mp (mt driveNameIsUnique_iff.mpr (Bool.eq_false_iff.mp used))
  rw [size]
  exact ⟨unique, ends, driveNameIsUnique_iff.mp (uniquifyFrom_isUnique ends)⟩

/-- Nothing is there that was not there before, or has changed its name or whether it is shown. -/
structure Fewer (s t : VolumeMonitor) : Prop where
  volumes : List.Sublist (volumeLooks t) (volumeLooks s)
  drives : List.Sublist (driveLooks t) (driveLooks s)

theorem Fewer.refl (s : VolumeMonitor) : Fewer s s := ⟨List.Sublist.refl _, List.Sublist.refl _⟩

theorem Fewer.trans {s t u : VolumeMonitor} (first : Fewer s t) (second : Fewer t u) : Fewer s u :=
  ⟨second.volumes.trans first.volumes, second.drives.trans first.drives⟩

variable {t : VolumeMonitor}

theorem Fewer.of_eq (volumes : volumeLooks t = volumeLooks s) (drives : driveLooks t = driveLooks s) :
    Fewer s t :=
  ⟨volumes ▸ List.Sublist.refl _, drives ▸ List.Sublist.refl _⟩

theorem Fewer.volumeId (s : VolumeMonitor) (n : Nat) : Fewer s { s with volumeIdCounter := n } := Fewer.of_eq rfl rfl

theorem Fewer.driveId (s : VolumeMonitor) (n : Nat) : Fewer s { s with driveIdCounter := n } := Fewer.of_eq rfl rfl

theorem onDrive_fewer (s : VolumeMonitor) (id : Nat) {f : Drive → Drive} (same : ∀ drive, (f drive).look = drive.look) :
    Fewer s (onDrive s id f) := by
  refine Fewer.of_eq rfl ?_
  rw [driveLooks, driveLooks, List.map_append, List.map_append, onDrive, List.map_map]
  refine congrArg (· ++ _) (List.map_congr_left fun drive _ => ?_)
  rw [Function.comp_apply]
  split
  · exact same drive
  · rfl

theorem setDrive_fewer (s : VolumeMonitor) (id : Nat) (drive : Option Nat) : Fewer s (setDrive s id drive) := by
  refine Fewer.of_eq ?_ rfl
  simp only [volumeLooks, List.map_append, setDrive, List.map_map]
  refine congrArg (· ++ _) (congrArg (· ++ _) (List.map_congr_left fun volume _ => ?_))
  rw [Function.comp_apply]
  split <;> rfl

theorem delist_fewer (s : VolumeMonitor) (id : Nat) : Fewer s (delist s id) :=
  ⟨((List.eraseP_sublist.append List.eraseP_sublist).append List.eraseP_sublist).map _, List.Sublist.refl _⟩

variable {volume : Volume}

theorem unmounted_fewer (removed : unmounted s volume = some t) : Fewer s t := by
  unfold unmounted at removed
  dsimp only at removed
  split at removed
  · obtain rfl := Option.some.inj removed
    exact delist_fewer s volume.id
  · split at removed
    · obtain rfl := Option.some.inj removed
      exact (delist_fewer s volume.id).trans (onDrive_fewer _ _ fun _ => rfl)
    · cases removed

theorem unsetDrives_fewer {drive first : Nat} (rounds : List Nat)
    (ends : unsetDrives drive first rounds s = some t) : Fewer s t := by
  induction rounds generalizing s with
  | nil =>
    obtain rfl := Option.some.inj ends
    exact Fewer.refl _
  | cons _ rounds ih =>
    rw [unsetDrives] at ends
    split at ends
    · exact (setDrive_fewer s first none).trans (ih ends)
    · cases ends

variable {drive : Drive}

theorem disconnected_fewer (removed : disconnected s drive = some t) : Fewer s t :=
  Fewer.trans (t := { s with fstabDrives := s.fstabDrives.eraseP fun other => other.id = drive.id })
    ⟨List.Sublist.refl _, (List.eraseP_sublist.append (List.Sublist.refl _)).map _⟩ (unsetDrives_fewer _ removed)

theorem removeMounts_fewer {removed : List Mount} (ends : removeMounts s removed = some t) : Fewer s t := by
  refine Transition.foldlM_keeps ends (Fewer.refl s) fun u mount v _ fewer turn => ?_
  obtain ⟨found, -, gone⟩ := Option.bind_eq_some_iff.mp turn
  cases found with
  | none =>
    obtain rfl := Option.some.inj gone
    exact fewer
  | some volume => exact fewer.trans (unmounted_fewer gone)

theorem removeMountPoints_fewer {removed : List MountPoint} (ends : removeMountPoints s removed = some t) :
    Fewer s t := by
  refine Transition.foldlM_keeps ends (Fewer.refl s) fun u mount v _ fewer turn => ?_
  obtain ⟨found, -, gone⟩ := Option.bind_eq_some_iff.mp turn
  cases found with
  | none =>
    obtain rfl := Option.some.inj gone
    exact fewer
  | some drive => exact fewer.trans (disconnected_fewer gone)

theorem removeServers_fewer {removed : List ConnectedServer} (ends : removeServers s removed = some t) :
    Fewer s t := by
  refine Transition.foldlM_keeps ends (Fewer.refl s) fun u server v _ fewer turn => ?_
  cases found : findConnectedServerByGconfId u server.id with
  | none =>
    rw [found] at turn
    obtain rfl := Option.some.inj turn
    exact fewer
  | some volume =>
    rw [found] at turn
    exact fewer.trans (unmounted_fewer turn)

/-- No two user-visible volumes have one name, and no two drives, which are all shown. -/
structure NamesDistinct (s : VolumeMonitor) : Prop where
  volumes : (shown (volumeLooks s)).Nodup
  drives : (shown (driveLooks s)).Nodup
  allShown : ∀ look ∈ driveLooks s, look.2 = true

theorem NamesDistinct.fewer (distinct : NamesDistinct s) (fewer : Fewer s t) : NamesDistinct t :=
  ⟨distinct.volumes.sublist (shown_sublist fewer.volumes), distinct.drives.sublist (shown_sublist fewer.drives),
    fun look there => distinct.allShown look (fewer.drives.subset there)⟩

variable {around : Surroundings}

theorem createVolFromMount_fresh {mount mount' : Mount}
    (created : createVolFromMount around s mount = some (volume, mount', t)) :
    Fewer s t ∧ volume.displayName ∉ shown (volumeLooks t) := by
  rw [createVolFromMount] at created
  obtain ⟨name, named, created⟩ := Option.bind_eq_some_iff.mp created
  obtain ⟨containing, -, created⟩ := Option.bind_eq_some_iff.mp created
  have fresh : name ∉ shown (volumeLooks s) := by
    obtain ⟨unique, found, free⟩ := uniquifyVolumeName_fresh { s with volumeIdCounter := s.volumeIdCounter + 1 } _
    obtain rfl := Option.some.inj (found.symm.trans named)
    exact free
  cases containing with
  | none =>
    cases Option.some.inj created
    exact ⟨Fewer.volumeId s _, fresh⟩
  | some drive =>
    dsimp only at created
    split at created
    · cases Option.some.inj created
      exact ⟨Fewer.volumeId s _, fresh⟩
    · cases Option.some.inj created
      refine ⟨(Fewer.volumeId s _).trans (onDrive_fewer _ _ ?_), fresh⟩
      exact fun _ => rfl

theorem createVolumeFromConnectedServer_fresh {server : ConnectedServer}
    (created : createVolumeFromConnectedServer s server = some (volume, t)) :
    Fewer s t ∧ volume.displayName ∉ shown (volumeLooks t) := by
  rw [createVolumeFromConnectedServer] at created
  obtain ⟨name, named, created⟩ := Option.bind_eq_some_iff.mp created
  obtain ⟨unique, found, free⟩ :=
    uniquifyVolumeName_fresh { s with volumeIdCounter := s.volumeIdCounter + 1 } server.displayName
  obtain rfl := Option.some.inj (found.symm.trans named)
  cases Option.some.inj created
  exact ⟨Fewer.volumeId s _, free⟩

theorem createDriveFromMountPoint_fresh {mount mount' : MountPoint}
    (created : createDriveFromMountPoint around s mount = some (some (drive, mount', t))) :
    Fewer s t ∧ drive.displayName ∉ shown (driveLooks t) ∧ drive.isUserVisible = true := by
  rw [createDriveFromMountPoint] at created
  split at created
  · cases created
  · obtain ⟨name, named, created⟩ := Option.bind_eq_some_iff.mp created
    obtain ⟨found, -, created⟩ := Option.bind_eq_some_iff.mp created
    have fresh : name ∉ shown (driveLooks s) := by
      obtain ⟨unique, found, free⟩ := uniquifyDriveName_fresh { s with driveIdCounter := s.driveIdCounter + 1 } _
      obtain rfl := Option.some.inj (found.symm.trans named)
      exact free
    cases found with
    | none =>
      cases Option.some.inj created
      exact ⟨Fewer.driveId s _, fresh, rfl⟩
    | some volume =>
      dsimp only at created
      split at created
      · cases Option.some.inj created
        exact ⟨(Fewer.driveId s _).trans (setDrive_fewer _ _ _), fresh, rfl⟩
      · cases Option.some.inj created
        exact ⟨Fewer.driveId s _, fresh, rfl⟩

theorem shown_cons_nodup {look : Bytes × Bool} {looks : List (Bytes × Bool)} (fresh : look.1 ∉ shown looks)
    (nodup : (shown looks).Nodup) : (shown (look :: looks)).Nodup := by
  rw [shown, List.filter_cons]
  split
  · exact List.nodup_cons.mpr ⟨fresh, nodup⟩
  · exact nodup

theorem mounted_looks (s : VolumeMonitor) (volume : Volume) :
    List.Perm (volumeLooks (mounted s volume)) (volume.look :: volumeLooks s) := by
  unfold mounted
  dsimp only
  split
  · exact List.Perm.refl _
  · simp only [volumeLooks, List.map_append, List.map_cons]
    exact List.perm_middle.append_right _
  · simp only [volumeLooks, List.map_append, List.map_cons]
    exact List.perm_middle

theorem NamesDistinct.mounted {s : VolumeMonitor} {volume : Volume} (distinct : NamesDistinct s)
    (fresh : volume.displayName ∉ shown (volumeLooks s)) : NamesDistinct (mounted s volume) := by
  have drives : driveLooks (Volumes.mounted s volume) = driveLooks s := by
    unfold Volumes.mounted
    dsimp only
    split <;> rfl
  refine ⟨?_, drives ▸ distinct.drives, drives ▸ distinct.allShown⟩
  have perm := ((mounted_looks s volume).filter Prod.snd).map Prod.fst
  exact perm.nodup_iff.mpr (shown_cons_nodup fresh distinct.volumes)

theorem NamesDistinct.connected (distinct : NamesDistinct s) (fresh : drive.displayName ∉ shown (driveLooks s))
    (visible : drive.isUserVisible = true) :
    NamesDistinct (connected s drive) := by
  refine ⟨distinct.volumes, shown_cons_nodup fresh distinct.drives, fun look there => ?_⟩
  rcases List.mem_cons.mp there with rfl | before
  · exact visible
  · exact distinct.allShown look before

theorem addMounts_distinct (added : List ((Mount × Nat) × UInt32)) {newMtab newMtab' : List Mount}
    (distinct : NamesDistinct s) (ends : addMounts around s newMtab added = some (t, newMtab')) :
    NamesDistinct t := by
  induction added generalizing s newMtab with
  | nil =>
    cases Option.some.inj ends
    exact distinct
  | cons entry added ih =>
    obtain ⟨⟨mount, place⟩, unixDevice⟩ := entry
    rw [addMounts] at ends
    obtain ⟨⟨volume, mount', u⟩, created, ends⟩ := Option.bind_eq_some_iff.mp ends
    obtain ⟨fewer, fresh⟩ := createVolFromMount_fresh created
    exact ih (@NamesDistinct.mounted u { volume with unixDevice := unixDevice } (distinct.fewer fewer) fresh) ends

theorem addMountPoints_distinct (added : List (MountPoint × Nat)) {newFstab newFstab' : List MountPoint}
    (distinct : NamesDistinct s) (ends : addMountPoints around s newFstab added = some (t, newFstab')) :
    NamesDistinct t := by
  induction added generalizing s newFstab with
  | nil =>
    cases Option.some.inj ends
    exact distinct
  | cons entry added ih =>
    obtain ⟨mount, place⟩ := entry
    rw [addMountPoints] at ends
    obtain ⟨outcome, created, ends⟩ := Option.bind_eq_some_iff.mp ends
    cases outcome with
    | none => exact ih distinct ends
    | some result =>
      obtain ⟨drive, mount', u⟩ := result
      obtain ⟨fewer, fresh, visible⟩ := createDriveFromMountPoint_fresh created
      exact ih ((distinct.fewer fewer).connected fresh visible) ends

theorem addServers_distinct {added : List ConnectedServer} (distinct : NamesDistinct s)
    (ends : addServers s added = some t) : NamesDistinct t := by
  refine Transition.foldlM_keeps ends distinct fun u server v _ so_far turn => ?_
  obtain ⟨⟨volume, w⟩, created, turn⟩ := Option.bind_eq_some_iff.mp turn
  obtain rfl := Option.some.inj turn
  obtain ⟨fewer, fresh⟩ := createVolumeFromConnectedServer_fresh created
  exact (so_far.fewer fewer).mounted fresh

theorem step_distinct {update : Update} (distinct : NamesDistinct s) (happens : step s update = some t) :
    NamesDistinct t := by
  cases update with
  | mtab around table =>
    obtain ⟨u, removed, happens⟩ := Option.bind_eq_some_iff.mp happens
    obtain ⟨devices, -, happens⟩ := Option.bind_eq_some_iff.mp happens
    obtain ⟨added, -, happens⟩ := Option.bind_eq_some_iff.mp happens
    obtain ⟨⟨v, newMtab⟩, adds, happens⟩ := Option.bind_eq_some_iff.mp happens
    obtain rfl := Option.some.inj happens
    exact (addMounts_distinct added (distinct.fewer (removeMounts_fewer removed)) adds).fewer (Fewer.of_eq rfl rfl)
  | fstab around table =>
    obtain ⟨u, removed, happens⟩ := Option.bind_eq_some_iff.mp happens
    obtain ⟨⟨v, newFstab⟩, adds, happens⟩ := Option.bind_eq_some_iff.mp happens
    obtain rfl := Option.some.inj happens
    exact (addMountPoints_distinct _ (distinct.fewer (removeMountPoints_fewer removed)) adds).fewer (Fewer.of_eq rfl rfl)
  | servers list =>
    obtain ⟨u, removed, happens⟩ := Option.bind_eq_some_iff.mp happens
    obtain ⟨v, adds, happens⟩ := Option.bind_eq_some_iff.mp happens
    obtain rfl := Option.some.inj happens
    exact (addServers_distinct (distinct.fewer (removeServers_fewer removed)) adds).fewer (Fewer.of_eq rfl rfl)

theorem start_distinct : NamesDistinct start := ⟨List.nodup_nil, List.nodup_nil, fun _ there => absurd there List.not_mem_nil⟩

/-- A name is found with one try more than there are user-visible volumes, none of them has it, and so
the names stay apart in every run. -/
theorem display_names_unique :
    (∀ (s : VolumeMonitor) (name : Bytes), ∃ unique,
      uniquifyVolumeName s ((visibleVolumes s).length + 1) name = some unique ∧
        ∀ volume ∈ visibleVolumes s, volume.displayName ≠ unique) ∧
    ∀ s, Transition.Run step (fun _ _ => True) start s →
      ((visibleVolumes s).map Volume.displayName).Nodup ∧ ((s.fstabDrives ++ s.vfsDrives).map Drive.displayName).Nodup := by
  constructor
  · intro s name
    obtain ⟨unique, ends, fresh⟩ := uniquifyVolumeName_fresh s name
    refine ⟨unique, ends, fun volume there same => fresh ?_⟩
    rw [shown_volumes]
    exact List.mem_map.mpr ⟨volume, there, same⟩
  · intro s reached
    have distinct : NamesDistinct s := reached.keeps start_distinct fun _ _ _ distinct _ happens => step_distinct distinct happens
    have all : visibleDrives s = s.fstabDrives ++ s.vfsDrives :=
      List.filter_eq_self.mpr fun drive there => distinct.allShown drive.look (List.mem_map_of_mem there)
    rw [← shown_volumes, ← all, ← shown_drives]
    exact ⟨distinct.volumes, distinct.drives⟩

/-- Two servers that are both called `H`. -/
def namesakes : List ConnectedServer := [sharedServer [49], sharedServer [50]]

def namesakeVolume (id : Nat) (gconfId name : Bytes) : Volume :=
  { id := id, volumeType := .connectedServer, deviceType := .unknown, devicePath := none, unixDevice := 0,
    activationUri := some (ascii "ftp://h"), filesystemType := none, isReadOnly := false, isMounted := true,
    displayName := name, isUserVisible := true, gconfId := some gconfId, drive := none }

def namesakesShown : VolumeMonitor :=
  { start with
    serverVolumes := [namesakeVolume 2 [49] (ascii "H (2)"), namesakeVolume 1 [50] (ascii "H")]
    lastConnectedServers := namesakes
    volumeIdCounter := 3 }

theorem namesakes_step : step start (.servers namesakes) = some namesakesShown := by
  have sorted : namesakes.mergeSort (fun a b => connectedServerCompare a b ≤ 0) = namesakes :=
    List.mergeSort_of_pairwise (by decide)
  rw [step, updateConnectedServers, sorted]
  rfl

/-- The second one is shown as `H (2)`. -/
theorem namesakes_distinct : ((visibleVolumes namesakesShown).map Volume.displayName).Nodup ∧
    ((namesakesShown.fstabDrives ++ namesakesShown.vfsDrives).map Drive.displayName).Nodup :=
  display_names_unique.2 _ (.next _ .refl True.intro namesakes_step)

end GnomeVfs.Volumes
