import GnomeVfs.VolumeNames
import GnomeVfs.VolumeTable

/- Volumes and drives name each other, which is what keeps the daemon going while it takes the entries
of a table out and puts new ones in. -/
namespace GnomeVfs.Volumes

open Mounts KeyedRemoval

/-- A volume is on the drive that lists it, and on no other one. -/
structure Linked (s : VolumeMonitor) : Prop where
  known : ∀ volume ∈ s.mtabVolumes, ∀ drive ∈ s.fstabDrives, volume.drive = some drive.id ↔ volume.id ∈ drive.volumes
  listed : ∀ drive ∈ s.fstabDrives, ∀ id ∈ drive.volumes, id ∈ s.mtabVolumes.map Volume.id
  present : ∀ volume ∈ s.mtabVolumes, ∀ id, volume.drive = some id → id ∈ driveIds s
  once : ∀ drive ∈ s.fstabDrives, drive.volumes.Nodup
  servers : ∀ volume ∈ s.serverVolumes, volume.drive = none

theorem Numbered.mtab {s : VolumeMonitor} (numbered : Numbered s) : (s.mtabVolumes.map Volume.id).Nodup := by
  have ids := numbered.volumes
  rw [volumeIds, List.map_append, List.map_append, List.append_assoc] at ids
  exact (List.nodup_append.mp ids).1

theorem Numbered.mtabBelow {s : VolumeMonitor} (numbered : Numbered s) {id : Nat} (there : id ∈ s.mtabVolumes.map Volume.id) :
    id < s.volumeIdCounter := by
  refine numbered.volumesBelow id ?_
  rw [volumeIds, List.map_append, List.map_append]
  exact List.mem_append_left _ (List.mem_append_left _ there)

/-- A lookup is answered if it has a URI to ask for, or nothing to compare it with. -/
theorem findByActivationUri_total {α : Type} {activationUri : α → Option Bytes} {uri : Option Bytes} {l : List α}
    (named : uri = none → ∀ own ∈ l.map activationUri, own = none) :
    ∃ found, findByActivationUri activationUri uri l = some found ∧ ∀ x, found = some x → x ∈ l := by
  cases uri with
  | some uri =>
    refine ⟨_, findByActivationUri_some activationUri uri l, fun x here => ?_⟩
    exact List.mem_of_find?_eq_some here
  | none =>
    refine ⟨none, ?_, fun x here => by cases here⟩
    have unnamed := named rfl
    clear named
    induction l with
    | nil => rfl
    | cons x l ih =>
      rw [findByActivationUri, unnamed _ List.mem_cons_self]
      exact ih fun own there => unnamed own (List.mem_cons_of_mem _ there)

variable {volume : Volume} {drive : Drive}

section Removal

variable {s : VolumeMonitor}

/-- A volume of the mount table is taken off its drive. -/
theorem unmounted_eq (linked : Linked s) (there : volume ∈ s.mtabVolumes) :
    unmounted s volume = some { delist s volume.id with
      fstabDrives := s.fstabDrives.map fun drive => { drive with volumes := drive.volumes.erase volume.id } } := by
  have apart : ∀ drive ∈ s.fstabDrives, volume.drive ≠ some drive.id →
      { drive with volumes := drive.volumes.erase volume.id } = drive := by
    intro drive among other
    have absent : volume.id ∉ drive.volumes := fun inside => other ((linked.known volume there drive among).mpr inside)
    rw [List.erase_of_not_mem absent]
  unfold unmounted
  dsimp only
  cases on : volume.drive with
  | none =>
    have same : s.fstabDrives.map (fun drive => { drive with volumes := drive.volumes.erase volume.id }) = s.fstabDrives := by
      refine (List.map_congr_left fun drive among => ?_).trans (List.map_id _)
      exact apart drive among (by rw [on]; exact Option.some_ne_none _ |>.symm)
    rw [same]
    rfl
  | some id =>
    have all : ((delist s volume.id).fstabDrives.all fun drive => drive.id ≠ id || drive.volumes.contains volume.id) = true := by
      rw [List.all_eq_true]
      intro drive among
      by_cases mine : drive.id = id
      · have inside := (linked.known volume there drive among).mp (on.trans (congrArg some mine.symm))
        rw [List.contains_iff_mem.mpr inside, Bool.or_true]
      · rw [decide_eq_true mine, Bool.true_or]
    have same : (delist s volume.id).fstabDrives.map
          (fun drive => if drive.id = id then { drive with volumes := drive.volumes.erase volume.id } else drive) =
        s.fstabDrives.map fun drive => { drive with volumes := drive.volumes.erase volume.id } := by
      refine List.map_congr_left fun drive among => ?_
      split
      · rfl
      · rename_i other
        exact (apart drive among fun mine => other (Option.some.inj (mine.symm.trans on))).symm
    refine (if_pos all).trans ?_
    rw [onDrive, same]

theorem unmounted_survives (numbered : Numbered s) (linked : Linked s) (there : volume ∈ s.mtabVolumes) :
    ∃ t, unmounted s volume = some t ∧ Linked t := by
  refine ⟨_, unmounted_eq linked there, ?_⟩
  have left : ∀ other, other ∈ without volume.id s.mtabVolumes ↔ other ∈ s.mtabVolumes ∧ other.id ≠ volume.id :=
    fun other => mem_removeFirst numbered.mtab
  refine ⟨fun other inside drive among => ?_, fun drive among id inside => ?_, fun other inside id on => ?_,
    fun drive among => ?_, fun other inside => linked.servers other (List.eraseP_subset inside)⟩
  · obtain ⟨before, different⟩ := (left other).mp inside
    obtain ⟨old, had, rfl⟩ := List.mem_map.mp among
    refine (linked.known other before old had).trans ?_
    exact (List.mem_erase_of_ne different).symm
  · obtain ⟨old, had, rfl⟩ := List.mem_map.mp among
    obtain ⟨different, before⟩ := (linked.once old had).mem_erase_iff.mp inside
    obtain ⟨other, still, rfl⟩ := List.mem_map.mp (linked.listed old had id before)
    exact List.mem_map_of_mem ((left other).mpr ⟨still, different⟩)
  · have known := linked.present other ((left other).mp inside).1 id on
    rw [driveIds, List.map_map]
    exact known
  · obtain ⟨old, had, rfl⟩ := List.mem_map.mp among
    exact (linked.once old had).erase _

/-- A volume as the end of a drive leaves it. -/
def released (drive : Nat) (volume : Volume) : Volume :=
  if volume.drive = some drive then { volume with drive := none } else volume

theorem released_id (drive : Nat) (volume : Volume) : (released drive volume).id = volume.id := by
  rw [released]
  split <;> rfl

theorem released_drive (drive id : Nat) (volume : Volume) :
    (released drive volume).drive = some id ↔ volume.drive = some id ∧ id ≠ drive := by
  rw [released]
  split
  · rename_i on
    constructor
    · exact fun nothing => by cases nothing
    · exact fun other => absurd (Option.some.inj (other.1.symm.trans on)) other.2
  · rename_i off
    exact ⟨fun on => ⟨on, fun same => off (same ▸ on)⟩, fun on => on.1⟩

/-- A drive that has no two volumes lets go of the one that it has. -/
theorem disconnected_eq (linked : Linked s) (there : drive ∈ s.fstabDrives) (single : drive.volumes.length ≤ 1) :
    disconnected s drive = some { s with
      fstabDrives := s.fstabDrives.eraseP fun other => other.id = drive.id
      mtabVolumes := s.mtabVolumes.map (released drive.id) } := by
  have known := fun volume among => linked.known volume among drive there
  have listed := linked.listed drive there
  unfold disconnected
  dsimp only
  cases held : drive.volumes with
  | nil =>
    have same : s.mtabVolumes.map (released drive.id) = s.mtabVolumes := by
      refine (List.map_congr_left fun volume among => if_neg fun on => ?_).trans (List.map_id _)
      have inside := (known volume among).mp on
      rw [held] at inside
      cases inside
    rw [same]
    rfl
  | cons id others =>
    cases others with
    | nil =>
      have mine : ∀ volume ∈ s.mtabVolumes, volume.drive = some drive.id ↔ volume.id = id := by
        intro volume among
        rw [known volume among, held, List.mem_singleton]
      obtain ⟨volume, among, named⟩ := List.mem_map.mp (listed id (held ▸ List.mem_singleton_self id))
      have still : s.mtabVolumes.any (fun volume => volume.id = id && volume.drive = some drive.id) = true :=
        List.any_eq_true.mpr ⟨volume, among, by rw [decide_eq_true named, decide_eq_true ((mine volume among).mpr named)]; rfl⟩
      have same : s.mtabVolumes.map (fun volume => if volume.id = id then { volume with drive := none } else volume) =
          s.mtabVolumes.map (released drive.id) := by
        refine List.map_congr_left fun volume among => ?_
        rw [released]
        exact if_congr (mine volume among).symm rfl rfl
      rw [List.headD_cons, unsetDrives, if_pos still, unsetDrives, setDrive, same]
    | cons other others =>
      rw [held, List.length_cons, List.length_cons] at single
      omega

theorem disconnected_survives (numbered : Numbered s) (linked : Linked s) (there : drive ∈ s.fstabDrives)
    (single : drive.volumes.length ≤ 1) : ∃ t, disconnected s drive = some t ∧ Linked t := by
  refine ⟨_, disconnected_eq linked there single, ?_⟩
  have left : ∀ other, (other ∈ s.fstabDrives.eraseP fun other => other.id = drive.id) ↔
      other ∈ s.fstabDrives ∧ other.id ≠ drive.id := fun other => mem_removeFirst numbered.drives
  have ids : (s.mtabVolumes.map (released drive.id)).map Volume.id = s.mtabVolumes.map Volume.id := by
    rw [List.map_map]
    exact List.map_congr_left fun volume _ => released_id drive.id volume
  refine ⟨fun volume among other inside => ?_, fun other inside id on => ?_, fun volume among id on => ?_,
    fun other inside => linked.once other ((left other).mp inside).1, linked.servers⟩
  · obtain ⟨old, had, rfl⟩ := List.mem_map.mp among
    obtain ⟨before, different⟩ := (left other).mp inside
    rw [released_drive, released_id, linked.known old had other before]
    exact and_iff_left different
  · rw [ids]
    exact linked.listed other ((left other).mp inside).1 id on
  · obtain ⟨old, had, rfl⟩ := List.mem_map.mp among
    obtain ⟨on, different⟩ := (released_drive drive.id id old).mp on
    obtain ⟨other, before, rfl⟩ := List.mem_map.mp (linked.present old had id on)
    exact List.mem_map_of_mem ((left other).mpr ⟨before, different⟩)

theorem unmounted_server_survives (numbered : Numbered s) (linked : Linked s) (there : volume ∈ s.serverVolumes) :
    ∃ t, unmounted s volume = some t ∧ Numbered t ∧ Linked t := by
  have gone : unmounted s volume = some (delist s volume.id) := by
    unfold unmounted
    rw [linked.servers volume there]
  have kept := unmounted_server numbered there gone
  refine ⟨_, gone, kept.numbered, ?_, ?_, ?_, linked.once, fun other inside => linked.servers other (List.eraseP_subset inside)⟩
  · rw [kept.mtab]
    exact linked.known
  · rw [kept.mtab]
    exact linked.listed
  · rw [kept.mtab]
    exact linked.present

theorem removeMounts_survives {removed : List Mount} {uris : List Bytes}
    (absolute : removed.map Mount.uri = uris.map some) (numbered : Numbered s) (linked : Linked s) :
    ∃ t, removeMounts s removed = some t ∧ Linked t := by
  induction removed generalizing s uris with
  | nil => exact ⟨s, rfl, linked⟩
  | cons mount removed ih =>
    cases uris with
    | nil => cases absolute
    | cons uri uris =>
      rw [List.map_cons, List.map_cons, List.cons.injEq] at absolute
      obtain ⟨found, finds, among⟩ := @findByActivationUri_total Volume Volume.activationUri mount.uri s.mtabVolumes
        fun unnamed => absurd (absolute.1.symm.trans unnamed) (Option.some_ne_none _)
      have turn : ∃ u, (found.elim (some s) fun volume => unmounted s volume) = some u ∧ Linked u := by
        cases found with
        | none => exact ⟨s, rfl, linked⟩
        | some volume => exact unmounted_survives numbered linked (among volume rfl)
      obtain ⟨u, gone, linked'⟩ := turn
      have first : MountsRemoved [uri] s u := removeMount_turn numbered (absolute.1 ▸ finds) gone
      obtain ⟨t, rest, linked''⟩ := ih absolute.2 (first.numbered numbered) linked'
      refine ⟨t, ?_, linked''⟩
      rw [removeMounts, List.foldlM_cons]
      refine Option.bind_eq_some_iff.mpr ⟨u, Option.bind_eq_some_iff.mpr ⟨found, finds, ?_⟩, rest⟩
      cases found with
      | none => exact gone
      | some volume => exact gone

/-- Each drive that goes is among the first ones with its URI, and has no two volumes. -/
theorem removeMountPoints_survives {removed : List MountPoint} (numbered : Numbered s) (linked : Linked s)
    (asked : ∀ mount ∈ removed, mount.uri = none → ∀ uri ∈ s.fstabDrives.map Drive.activationUri, uri = none)
    (single : ∀ uri : Bytes, ∀ drive ∈ (having Drive.activationUri (some uri) s.fstabDrives).take
    (having MountPoint.uri (some uri) removed).length, drive.volumes.length ≤ 1):
    ∃ t, removeMountPoints s removed = some t ∧ Linked t := by
  induction removed generalizing s with
  | nil => exact ⟨s, rfl, linked⟩
  | cons mount removed ih =>
    obtain ⟨found, finds, among⟩ := findByActivationUri_total (asked mount List.mem_cons_self)
    have turn : ∃ u, (found.elim (some s) fun drive => disconnected s drive) = some u ∧ Linked u := by
      cases found with
      | none => exact ⟨s, rfl, linked⟩
      | some drive =>
        refine disconnected_survives numbered linked (among drive rfl) ?_
        cases known : mount.uri with
        | none =>
          rw [known] at finds
          cases findByActivationUri_none finds
        | some uri =>
          rw [known, findByActivationUri_some] at finds
          refine single uri drive ?_
          rw [having_cons_of_eq known, List.length_cons]
          have first : (having Drive.activationUri (some uri) s.fstabDrives).head? = some drive :=
            List.head?_filter.trans (Option.some.inj finds)
          obtain ⟨rest, whole⟩ := List.head?_eq_some_iff.mp first
          rw [whole, List.take_succ_cons]
          exact List.mem_cons_self
    obtain ⟨u, gone, linked'⟩ := turn
    have first : DrivesRemoved mount.uri.toList s u := removeMountPoint_turn numbered finds gone
    obtain ⟨t, rest, linked''⟩ := ih (first.numbered numbered) linked'
      (fun other there unnamed uri inside => by
        refine asked other (List.mem_cons_of_mem _ there) unnamed uri (List.Sublist.subset ?_ inside)
        rw [first.drives]
        exact (removeFirsts_sublist _ _ _).map _)
      (fun uri drive inside => by
        refine single uri drive ?_
        rw [first.drives, having_removeFirsts, List.take_drop] at inside
        have counted := having_uris [mount] uri
        rw [List.filterMap_cons, List.filterMap_nil] at counted
        have whole : having MountPoint.uri (some uri) (mount :: removed) =
            having MountPoint.uri (some uri) [mount] ++ having MountPoint.uri (some uri) removed := List.filter_append [mount] removed
        rw [whole, List.length_append, ← counted]
        cases known : mount.uri with
        | none => exact List.mem_of_mem_drop (known ▸ inside)
        | some other => exact List.mem_of_mem_drop (known ▸ inside))
    refine ⟨t, ?_, linked''⟩
    rw [removeMountPoints, List.foldlM_cons]
    refine Option.bind_eq_some_iff.mpr ⟨u, Option.bind_eq_some_iff.mpr ⟨found, finds, ?_⟩, rest⟩
    cases found with
    | none => exact gone
    | some drive => exact gone

theorem removeServers_survives {removed : List ConnectedServer} (numbered : Numbered s) (linked : Linked s) :
    ∃ t, removeServers s removed = some t ∧ Numbered t ∧ Linked t := by
  induction removed generalizing s with
  | nil => exact ⟨s, rfl, numbered, linked⟩
  | cons server removed ih =>
    rw [removeServers, List.foldlM_cons]
    cases found : findConnectedServerByGconfId s server.id with
    | none => exact ih numbered linked
    | some volume =>
      obtain ⟨u, gone, numbered', linked'⟩ := unmounted_server_survives numbered linked (List.mem_of_find?_eq_some found)
      obtain ⟨t, rest, kept⟩ := ih numbered' linked'
      exact ⟨t, Option.bind_eq_some_iff.mpr ⟨u, gone, rest⟩, kept⟩

end Removal

section Addition

variable {around : Surroundings} {s : VolumeMonitor}

/-- A drive as a new volume on it leaves it. -/
def held (volume : Volume) (drive : Drive) : Drive :=
  if volume.drive = some drive.id then { drive with volumes := drive.volumes ++ [volume.id] } else drive

theorem held_id (volume : Volume) (drive : Drive) : (held volume drive).id = drive.id := by
  rw [held]
  split <;> rfl

theorem mem_held {id : Nat} :
    id ∈ (held volume drive).volumes ↔ id ∈ drive.volumes ∨ volume.drive = some drive.id ∧ id = volume.id := by
  rw [held]
  split
  · rename_i on
    rw [List.mem_append, List.mem_singleton, and_iff_right on]
  · rename_i off
    exact ⟨Or.inl, fun inside => inside.resolve_right fun new => off new.1⟩

/-- A new volume is put in the list, and on the drive that it names. -/
theorem mounted_linked (numbered : Numbered s) (linked : Linked s) (id : volume.id = s.volumeIdCounter)
    (type : volume.volumeType = .mountpoint) (on : ∀ drive, volume.drive = some drive → drive ∈ driveIds s) :
    Linked (mounted { s with volumeIdCounter := s.volumeIdCounter + 1, fstabDrives := s.fstabDrives.map (held volume) } volume) := by
  have fresh : volume.id ∉ s.mtabVolumes.map Volume.id :=
    fun there => absurd (numbered.mtabBelow there) (id ▸ Nat.lt_irrefl _)
  have unheld : ∀ drive ∈ s.fstabDrives, volume.id ∉ drive.volumes :=
    fun drive among inside => fresh (linked.listed drive among _ inside)
  have ids : (s.fstabDrives.map (held volume)).map Drive.id = driveIds s := by
    rw [List.map_map]
    exact List.map_congr_left fun drive _ => held_id volume drive
  rw [mounted_mountpoint _ type]
  refine ⟨fun other inside drive among => ?_, fun drive among id inside => ?_, fun other inside drive on' => ?_,
    fun drive among => ?_, linked.servers⟩
  · obtain ⟨old, had, rfl⟩ := List.mem_map.mp among
    rw [held_id, mem_held]
    rcases List.mem_cons.mp inside with rfl | before
    · exact ⟨fun on => Or.inr ⟨on, rfl⟩, fun inside => (inside.resolve_left (unheld old had)).1⟩
    · have different : other.id ≠ volume.id := fun same => fresh (same ▸ List.mem_map_of_mem before)
      rw [linked.known other before old had]
      exact ⟨Or.inl, fun inside => inside.resolve_right fun new => different new.2⟩
  · obtain ⟨old, had, rfl⟩ := List.mem_map.mp among
    rcases mem_held.mp inside with before | ⟨-, rfl⟩
    · exact List.mem_cons_of_mem _ (linked.listed old had id before)
    · exact List.mem_cons_self
  · rw [driveIds, ids]
    rcases List.mem_cons.mp inside with rfl | before
    · exact on drive on'
    · exact linked.present other before drive on'
  · obtain ⟨old, had, rfl⟩ := List.mem_map.mp among
    have once := linked.once old had
    rw [held]
    split
    · refine List.nodup_append.mpr ⟨once, List.nodup_singleton _, fun a before b new same => ?_⟩
      exact unheld old had (List.mem_singleton.mp new ▸ same ▸ before)
    · exact once

theorem mounted_free_linked (numbered : Numbered s) (linked : Linked s) (id : volume.id = s.volumeIdCounter)
    (type : volume.volumeType = .mountpoint) (free : volume.drive = none) :
    Linked (mounted { s with volumeIdCounter := s.volumeIdCounter + 1 } volume) := by
  have added := mounted_linked numbered linked id type fun drive on => by rw [free] at on; cases on
  have same : s.fstabDrives.map (held volume) = s.fstabDrives := by
    refine (List.map_congr_left fun drive _ => if_neg ?_).trans (List.map_id _)
    rw [free]
    exact (Option.some_ne_none _).symm
  rwa [same] at added

theorem mounted_onDrive_linked (numbered : Numbered s) (linked : Linked s) (id : volume.id = s.volumeIdCounter)
    (type : volume.volumeType = .mountpoint) (among : drive ∈ s.fstabDrives) (on : volume.drive = some drive.id) :
    Linked (mounted (onDrive { s with volumeIdCounter := s.volumeIdCounter + 1 } drive.id fun drive =>
      { drive with volumes := drive.volumes ++ [s.volumeIdCounter] }) volume) := by
  have added := mounted_linked numbered linked id type fun other named =>
    Option.some.inj (on.symm.trans named) ▸ List.mem_map_of_mem among
  have same : s.fstabDrives.map (held volume) = s.fstabDrives.map fun other =>
      if other.id = drive.id then { other with volumes := other.volumes ++ [s.volumeIdCounter] } else other := by
    refine List.map_congr_left fun other _ => ?_
    rw [held, on, id]
    exact if_congr (Option.some_inj.trans eq_comm) rfl rfl
  rwa [same] at added

theorem createVolFromMount_survives {mount : Mount} (plain : needsFixup mount.devicePath mount.mountPath = false)
    (numbered : Numbered s) (linked : Linked s)
    (named : mount.uri = none → ∀ uri ∈ s.fstabDrives.map Drive.activationUri, uri = none) :
    ∃ volume t, createVolFromMount around s mount = some (volume, mount, t) ∧
      ∀ unixDevice, Linked (mounted t { volume with unixDevice := unixDevice }) := by
  have same : fixupMount mount = mount := if_neg (Bool.eq_false_iff.mp plain)
  obtain ⟨name, unique, -⟩ := uniquifyVolumeName_fresh { s with volumeIdCounter := s.volumeIdCounter + 1 }
    (volumeName around mount (probeDisc around (mountDeviceType mount) mount.devicePath).2)
  obtain ⟨found, finds, among⟩ := findByActivationUri_total named
  rw [createVolFromMount, same]
  cases found with
  | none =>
    refine ⟨_, _, Option.bind_eq_some_iff.mpr ⟨name, unique, Option.bind_eq_some_iff.mpr ⟨none, finds, rfl⟩⟩, ?_⟩
    exact fun unixDevice => mounted_free_linked numbered linked rfl rfl rfl
  | some drive =>
    have unheld : ¬ drive.volumes.contains s.volumeIdCounter = true := fun inside =>
      absurd (numbered.mtabBelow (linked.listed drive (among drive rfl) _ (List.contains_iff_mem.mp inside)))
        (Nat.lt_irrefl _)
    refine ⟨_, _, Option.bind_eq_some_iff.mpr ⟨name, unique, Option.bind_eq_some_iff.mpr
      ⟨some drive, finds, if_neg unheld⟩⟩, ?_⟩
    exact fun unixDevice => mounted_onDrive_linked numbered linked rfl rfl (among drive rfl) rfl

theorem mounted_fstabDrives (s : VolumeMonitor) (volume : Volume) : (mounted s volume).fstabDrives = s.fstabDrives := by
  unfold mounted
  dsimp only
  split <;> rfl

theorem addMounts_survives {newMtab : List Mount} (added : List ((Mount × Nat) × UInt32))
    (plain : ∀ entry ∈ added, needsFixup entry.1.1.devicePath entry.1.1.mountPath = false)
    (named : ∀ entry ∈ added, entry.1.1.uri = none → ∀ uri ∈ s.fstabDrives.map Drive.activationUri, uri = none)
    (numbered : Numbered s) (linked : Linked s) :
    ∃ t newMtab', addMounts around s newMtab added = some (t, newMtab') ∧ Linked t := by
  induction added generalizing s newMtab with
  | nil => exact ⟨s, newMtab, rfl, linked⟩
  | cons entry added ih =>
    obtain ⟨⟨mount, place⟩, unixDevice⟩ := entry
    obtain ⟨volume, u, created, linked'⟩ := @createVolFromMount_survives around s mount (plain _ List.mem_cons_self)
      numbered linked (named _ List.mem_cons_self)
    obtain ⟨-, -, id, type, drives, rfl, same⟩ := createVolFromMount_effect (plain _ List.mem_cons_self) created
    have numbered' := mounted_numbered numbered { volume with unixDevice := unixDevice } id same
    have uris : drives.map Drive.activationUri = s.fstabDrives.map Drive.activationUri := by
      have urls := congrArg (List.map fun outline : Nat × DriveFacts => outline.2.1) same
      rwa [List.map_map, List.map_map] at urls
    obtain ⟨t, newMtab', rest, linked''⟩ := @ih (mounted { s with volumeIdCounter := s.volumeIdCounter + 1, fstabDrives := drives }
        { volume with unixDevice := unixDevice }) (newMtab.set place mount)
      (fun entry there => plain entry (List.mem_cons_of_mem _ there))
      (fun entry there unnamed uri inside => by
        refine named entry (List.mem_cons_of_mem _ there) unnamed uri ?_
        rw [← uris]
        rwa [mounted_fstabDrives] at inside)
      numbered' (linked' unixDevice)
    refine ⟨t, newMtab', ?_, linked''⟩
    rw [addMounts, created]
    exact rest

/-- A volume as a new drive takes it. -/
def taken (drive : Drive) (volume : Volume) : Volume :=
  if volume.id ∈ drive.volumes then { volume with drive := some drive.id } else volume

theorem taken_id (drive : Drive) (volume : Volume) : (taken drive volume).id = volume.id := by
  rw [taken]
  split <;> rfl

/-- A new drive is put in the list, with volumes that are on no other one. -/
theorem connected_linked (numbered : Numbered s) (linked : Linked s) (id : drive.id = s.driveIdCounter)
    (listed : ∀ id ∈ drive.volumes, id ∈ s.mtabVolumes.map Volume.id)
    (free : ∀ volume ∈ s.mtabVolumes, volume.id ∈ drive.volumes → volume.drive = none) (once : drive.volumes.Nodup) :
    Linked (connected { s with
      driveIdCounter := s.driveIdCounter + 1, mtabVolumes := s.mtabVolumes.map (taken drive) } drive) := by
  have fresh : drive.id ∉ driveIds s := fun there => absurd (numbered.drivesBelow _ there) (id ▸ Nat.lt_irrefl _)
  have ids : (s.mtabVolumes.map (taken drive)).map Volume.id = s.mtabVolumes.map Volume.id := by
    rw [List.map_map]
    exact List.map_congr_left fun volume _ => taken_id drive volume
  refine ⟨fun volume among other inside => ?_, fun other inside id on => ?_, fun volume among id on => ?_,
    fun other inside => ?_, linked.servers⟩
  · obtain ⟨old, had, rfl⟩ := List.mem_map.mp among
    rw [taken_id]
    rcases List.mem_cons.mp inside with rfl | before
    · rw [taken]
      split
      · rename_i mine
        exact ⟨fun _ => mine, fun _ => rfl⟩
      · rename_i other
        exact ⟨fun on => absurd (linked.present old had _ on) fresh, fun mine => absurd mine other⟩
    · rw [← linked.known old had other before, taken]
      split
      · rename_i mine
        rw [free old had mine]
        constructor
        · exact fun same => absurd (List.mem_map_of_mem before) (Option.some.inj same ▸ fresh)
        · exact fun nothing => by cases nothing
      · exact Iff.rfl
  · change id ∈ (s.mtabVolumes.map (taken drive)).map Volume.id
    rw [ids]
    rcases List.mem_cons.mp inside with rfl | before
    · exact listed id on
    · exact linked.listed other before id on
  · obtain ⟨old, had, rfl⟩ := List.mem_map.mp among
    rw [taken] at on
    split at on
    · obtain rfl := Option.some.inj on
      exact List.mem_cons_self
    · exact List.mem_cons_of_mem _ (linked.present old had id on)
  · rcases List.mem_cons.mp inside with rfl | before
    · exact once
    · exact linked.once other before

theorem connected_empty_linked (numbered : Numbered s) (linked : Linked s) (id : drive.id = s.driveIdCounter)
    (empty : drive.volumes = []) : Linked (connected { s with driveIdCounter := s.driveIdCounter + 1 } drive) := by
  have nothing : ∀ id, id ∉ drive.volumes := fun id there => by rw [empty] at there; cases there
  have added := connected_linked numbered linked id (fun id there => absurd there (nothing id))
    (fun volume _ there => absurd there (nothing volume.id)) (by rw [empty]; exact List.nodup_nil)
  have same : s.mtabVolumes.map (taken drive) = s.mtabVolumes :=
    (List.map_congr_left fun volume _ => if_neg (nothing volume.id)).trans (List.map_id _)
  rwa [same] at added

theorem connected_one_linked (numbered : Numbered s) (linked : Linked s) (id : drive.id = s.driveIdCounter)
    (there : volume ∈ s.mtabVolumes) (free : volume.drive = none) (one : drive.volumes = [volume.id]) :
    Linked (connected (setDrive { s with driveIdCounter := s.driveIdCounter + 1 } volume.id (some s.driveIdCounter)) drive) := by
  have only : ∀ id, id ∈ drive.volumes ↔ id = volume.id := fun id => by rw [one, List.mem_singleton]
  have added := connected_linked numbered linked id
    (fun id inside => (only id).mp inside ▸ List.mem_map_of_mem there)
    (fun other among inside => by
      rwa [List.inj_on_of_nodup_map numbered.mtab among there ((only other.id).mp inside)])
    (by rw [one]; exact List.nodup_singleton _)
  have same : s.mtabVolumes.map (taken drive) = s.mtabVolumes.map fun other =>
      if other.id = volume.id then { other with drive := some s.driveIdCounter } else other := by
    refine List.map_congr_left fun other _ => ?_
    rw [taken, id]
    exact if_congr (only other.id) rfl rfl
  rwa [same] at added

/-- Without devices below `/vol/` a mount point has a drive exactly if it is for users. -/
theorem forUsers_of_usual {mount : MountPoint} (usual : mount.forUsers = false →
    mount.isLoopback = true ∨ (ascii "/vol/").isPrefixOf mount.devicePath = false):
    (mount.isLoopback || !(mount.isUserMountable || (ascii "/vol/").isPrefixOf mount.devicePath)) = !mount.forUsers := by
  unfold MountPoint.forUsers at usual ⊢
  cases loop : mount.isLoopback
  · cases users : mount.isUserMountable
    · rw [loop, users] at usual
      simpa using usual rfl
    · rfl
  · rw [Bool.not_true, Bool.and_false]
    rfl

theorem createDriveFromMountPoint_survives {mount : MountPoint}
    (usual : mount.forUsers = false → mount.isLoopback = true ∨ (ascii "/vol/").isPrefixOf mount.devicePath = false)
    (plain : mount.forUsers = true → needsFixup mount.devicePath mount.mountPath = false) (numbered : Numbered s)
    (linked : Linked s)
    (named : mount.forUsers = true → mount.uri = none → ∀ uri ∈ s.mtabVolumes.map Volume.activationUri, uri = none) :
    createDriveFromMountPoint around s mount = some none ∨
      mount.forUsers = true ∧ ∃ drive t, createDriveFromMountPoint around s mount = some (some (drive, mount, t)) ∧
        Linked (connected t drive) := by
  rw [createDriveFromMountPoint, forUsers_of_usual usual]
  cases users : mount.forUsers with
  | false => exact Or.inl rfl
  | true =>
    refine Or.inr ⟨rfl, ?_⟩
    have same : fixupMountpoint mount = mount := if_neg (Bool.eq_false_iff.mp (plain users))
    obtain ⟨name, unique, -⟩ := uniquifyDriveName_fresh { s with driveIdCounter := s.driveIdCounter + 1 }
      (around.makeUtf8 (around.driveName mount.mountPath))
    obtain ⟨found, finds, among⟩ := findByActivationUri_total (named users)
    rw [same]
    cases found with
    | none =>
      refine ⟨_, _, Option.bind_eq_some_iff.mpr ⟨name, unique, Option.bind_eq_some_iff.mpr ⟨none, finds, rfl⟩⟩, ?_⟩
      exact connected_empty_linked numbered linked rfl rfl
    | some volume =>
      by_cases free : volume.drive = none
      · refine ⟨_, _, Option.bind_eq_some_iff.mpr ⟨name, unique, Option.bind_eq_some_iff.mpr
          ⟨some volume, finds, if_pos free⟩⟩, ?_⟩
        exact connected_one_linked numbered linked rfl (among volume rfl) free rfl
      · refine ⟨_, _, Option.bind_eq_some_iff.mpr ⟨name, unique, Option.bind_eq_some_iff.mpr
          ⟨some volume, finds, if_neg free⟩⟩, ?_⟩
        exact connected_empty_linked numbered linked rfl rfl

theorem addMountPoints_survives {newFstab : List MountPoint} (added : List (MountPoint × Nat))
    (usual : ∀ entry ∈ added, entry.1.forUsers = false →
      entry.1.isLoopback = true ∨ (ascii "/vol/").isPrefixOf entry.1.devicePath = false)
    (plain : ∀ entry ∈ added, entry.1.forUsers = true → needsFixup entry.1.devicePath entry.1.mountPath = false)
    (named : ∀ entry ∈ added, entry.1.forUsers = true → entry.1.uri = none →
      ∀ uri ∈ s.mtabVolumes.map Volume.activationUri, uri = none) (numbered : Numbered s) (linked : Linked s):
    ∃ t newFstab', addMountPoints around s newFstab added = some (t, newFstab') ∧ Linked t := by
  induction added generalizing s newFstab with
  | nil => exact ⟨s, newFstab, rfl, linked⟩
  | cons entry added ih =>
    obtain ⟨mount, place⟩ := entry
    have usual' := fun entry there => usual entry (List.mem_cons_of_mem _ there)
    have plain' := fun entry there => plain entry (List.mem_cons_of_mem _ there)
    have named' := fun entry there => named entry (List.mem_cons_of_mem _ there)
    rcases @createDriveFromMountPoint_survives around s mount (usual _ List.mem_cons_self) (plain _ List.mem_cons_self)
        numbered linked (named _ List.mem_cons_self) with refused | ⟨users, drive, u, created, linked'⟩
    · obtain ⟨t, newFstab', rest, linked'⟩ := @ih s newFstab usual' plain' named' numbered linked
      refine ⟨t, newFstab', ?_, linked'⟩
      rw [addMountPoints, refused]
      exact rest
    · obtain ⟨-, -, id, volumes, drives, counter, -⟩ :=
        createDriveFromMountPoint_effect (plain _ List.mem_cons_self users) created
      have uris : u.mtabVolumes.map Volume.activationUri = s.mtabVolumes.map Volume.activationUri := by
        have urls := congrArg (List.map fun outline : Nat × Facts => outline.2.1) volumes.mtab
        rwa [List.map_map, List.map_map] at urls
      obtain ⟨t, newFstab', rest, linked''⟩ := @ih (connected u drive) (newFstab.set place mount) usual' plain'
        (fun entry there users unnamed => uris ▸ named' entry there users unnamed)
        (connected_numbered numbered id volumes drives counter) linked'
      refine ⟨t, newFstab', ?_, linked''⟩
      rw [addMountPoints, created]
      exact rest

theorem addServers_survives (added : List ConnectedServer) (linked : Linked s) :
    ∃ t, addServers s added = some t ∧ Linked t := by
  induction added generalizing s with
  | nil => exact ⟨s, rfl, linked⟩
  | cons server added ih =>
    obtain ⟨name, unique, -⟩ := uniquifyVolumeName_fresh { s with volumeIdCounter := s.volumeIdCounter + 1 } server.displayName
    have created : ∃ volume, createVolumeFromConnectedServer s server =
        some (volume, { s with volumeIdCounter := s.volumeIdCounter + 1 }) ∧ volume.volumeType = .connectedServer ∧
          volume.drive = none :=
      ⟨_, Option.bind_eq_some_iff.mpr ⟨name, unique, rfl⟩, rfl, rfl⟩
    obtain ⟨volume, created, type, free⟩ := created
    have linked' : Linked (mounted { s with volumeIdCounter := s.volumeIdCounter + 1 } volume) := by
      rw [mounted_server _ type]
      refine ⟨linked.known, linked.listed, linked.present, linked.once, fun other inside => ?_⟩
      rcases List.mem_cons.mp inside with rfl | before
      · exact free
      · exact linked.servers other before
    obtain ⟨t, rest, linked''⟩ := ih linked'
    refine ⟨t, ?_, linked''⟩
    rw [addServers, List.foldlM_cons, created]
    exact rest

end Addition

end GnomeVfs.Volumes
