import GnomeVfs.Environment
import GnomeVfs.XferRemove
import Mathlib.Data.Finset.Card

/- Visits of directories that are reached from themselves, and how loop checking ends them. -/
namespace GnomeVfs.Xfer

open Interaction

section Room

variable {inodes : Finset (UInt64 × UInt64)} {ancestors : List (UInt64 × UInt64)} {reference : UInt64 × UInt64}

/-- How many references `lookup_ancestor` lets be put in front of the ancestors: those that are not among
them, and any up to the maximum depth. -/
def room (inodes : Finset (UInt64 × UInt64)) (ancestors : List (UInt64 × UInt64)) : Nat :=
  (inodes \ ancestors.toFinset).card + (vfsMaximumSymbolicLinkDepth - ancestors.length)

theorem missing_cons (inodes : Finset (UInt64 × UInt64)) (ancestors : List (UInt64 × UInt64)) (reference : UInt64 × UInt64) :
    inodes \ (reference :: ancestors).toFinset ⊆ inodes \ ancestors.toFinset := by
  rw [List.toFinset_cons]
  exact Finset.sdiff_subset_sdiff (Finset.Subset.refl inodes) (Finset.subset_insert reference _)

theorem room_cons_lt_of_new (known : reference ∈ inodes) (new : reference ∉ ancestors) :
    room inodes (reference :: ancestors) < room inodes ancestors := by
  have fewer : (inodes \ (reference :: ancestors).toFinset).card < (inodes \ ancestors.toFinset).card := by
    apply Finset.card_lt_card
    refine ⟨missing_cons inodes ancestors reference, fun back => ?_⟩
    have missing := back (Finset.mem_sdiff.mpr ⟨known, fun member => new (List.mem_toFinset.mp member)⟩)
    simp at missing
  simp only [room, List.length_cons]
  omega

theorem room_cons_lt_of_short (short : ancestors.length < vfsMaximumSymbolicLinkDepth) :
    room inodes (reference :: ancestors) < room inodes ancestors := by
  have fewer := Finset.card_le_card (missing_cons inodes ancestors reference)
  simp only [room, List.length_cons]
  omega

theorem room_singleton (inodes : Finset (UInt64 × UInt64)) (reference : UInt64 × UInt64) :
    room inodes [reference] ≤ inodes.card + 255 := by
  have fewer := Finset.card_le_card (Finset.sdiff_subset (s := inodes) (t := [reference].toFinset))
  simp only [room, List.length_singleton, vfsMaximumSymbolicLinkDepth]
  omega

theorem lookupAncestor_valid {inode device : UInt64} :
    lookupAncestor ancestors true inode device = false ↔ (inode, device) ∉ ancestors := by
  simp only [lookupAncestor, Bool.not_true, Bool.false_eq_true, if_false, List.any_eq_false, Bool.and_eq_true,
    decide_eq_true_eq]
  constructor
  · intro none member
    exact none _ member ⟨rfl, rfl⟩
  · rintro new ⟨_, _⟩ member ⟨rfl, rfl⟩
    exact new member

theorem room_lt_of_lookup {valid : Bool} {inode device : UInt64} (known : valid = true → (inode, device) ∈ inodes)
    (new : lookupAncestor ancestors valid inode device = false) :
    room inodes ((inode, device) :: ancestors) < room inodes ancestors := by
  cases valid with
  | true => exact room_cons_lt_of_new (known rfl) (lookupAncestor_valid.mp new)
  | false =>
    apply room_cons_lt_of_short
    simpa [lookupAncestor] using new

end Room

/-- What the directories are found to contain, and to which of them a URI leads. A link or a mount leads
where it likes. -/
structure DirectoryGraph (U : Type) where
  directories : List (List FileInfo)
  find : U → Option (Fin directories.length)

/-- The directories that are open: what is left to read of each, and how many they are. -/
structure OpenDirectories where
  pending : Handle → Option (List FileInfo)
  count : Nat

namespace OpenDirectories

variable (w : OpenDirectories) (handle : Handle)

def opening (entries : List FileInfo) : OpenDirectories :=
  { pending := Function.update w.pending handle (some entries), count := w.count + 1 }

def reading (entries : List FileInfo) : OpenDirectories :=
  { w with pending := Function.update w.pending handle (some entries) }

def closing : OpenDirectories :=
  { pending := Function.update w.pending handle none, count := w.count - 1 }

@[simp] theorem opening_count (entries : List FileInfo) : (w.opening handle entries).count = w.count + 1 := rfl

@[simp] theorem opening_pending (entries : List FileInfo) : (w.opening handle entries).pending handle = some entries :=
  Function.update_self ..

@[simp] theorem reading_opening (entries rest : List FileInfo) :
    (w.opening handle entries).reading handle rest = w.opening handle rest := by
  simp [opening, reading]

theorem closing_opening (entries : List FileInfo) (fresh : w.pending handle = none) :
    (w.opening handle entries).closing handle = w := by
  simp [opening, closing, ← fresh]

end OpenDirectories

namespace DirectoryGraph

variable {U : Type} (g : DirectoryGraph U)

/-- The file system may fail at any call. -/
def Serves (w : OpenDirectories) : (op : Op U) → op.Reply → OpenDirectories → Prop
  | .openDirectory uri _, reply, w' => reply.1 ≠ .ok ∧ w' = w ∨
      reply.1 = .ok ∧ w.pending reply.2 = none ∧ ∃ d, g.find uri = some d ∧ w' = w.opening reply.2 (g.directories.get d)
  | .readNext handle, reply, w' => reply.1 ≠ .ok ∧ w' = w ∨
      reply.1 = .ok ∧ ∃ rest, w.pending handle = some (reply.2 :: rest) ∧ w' = w.reading handle rest
  | .closeDirectory handle, _, w' => w' = w.closing handle
  | _, _, w' => w' = w

/-- The inodes and devices of the directories that have both. -/
def inodes : Finset (UInt64 × UInt64) :=
  ((g.directories.flatten.filter fun info => info.type = .directory && (info.hasDevice && info.hasInode)).map
    fun info => (info.inode, info.device)).toFinset

/-- How many entries there are. -/
def size : Nat := g.directories.flatten.length

def Local : Prop := ∀ entries ∈ g.directories, ∀ info ∈ entries, info.type = .directory → info.isLocal = true

instance : Decidable g.Local := by unfold Local; infer_instance

theorem length_le_size (d : Fin g.directories.length) : (g.directories.get d).length ≤ g.size :=
  (List.sublist_flatten_of_mem (List.get_mem _ _)).length_le

theorem mem_inodes {d : Fin g.directories.length} {info : FileInfo} (member : info ∈ g.directories.get d)
    (directory : info.type = .directory) (valid : (info.hasDevice && info.hasInode) = true) :
    (info.inode, info.device) ∈ g.inodes := by
  rw [inodes, List.mem_toFinset]
  refine List.mem_map.mpr ⟨info, List.mem_filter.mpr ⟨?_, ?_⟩, rfl⟩
  · exact List.mem_flatten.mpr ⟨_, List.get_mem _ _, member⟩
  · simp [directory, valid]

end DirectoryGraph

/-- A callback without file operations that asks for a recursion where it is not told of a loop. -/
def obedient {U D : Type} (f : Bytes → FileInfo → Bool → D → Bool × D) : VisitFunc U D :=
  fun relPath info willLoop data =>
    pure ((f relPath info willLoop data).1, !willLoop, (f relPath info willLoop data).2)

section Visit

variable {U D : Type} {g : DirectoryGraph U} {cfg : Config U} {infoOptions : InfoOptions} {ignores : Bool}
  {f : Bytes → FileInfo → Bool → D → Bool × D} {limit : Nat}

/-- A visit with these ancestors ends with what it has opened closed again, and has no more than so many
directories open. -/
def EndsBelow (g : DirectoryGraph U) (limit : Nat) (ancestors : List (UInt64 × UInt64)) (x : XferM U (VfsResult × D)) :
    Prop :=
  ∀ s w, w.count + room g.inodes ancestors ≤ limit →
    Action.safe g.Serves (fun w _ => w.count ≤ limit + 1) x s (fun _ _ w' => w' = w) (fun _ _ => False) w

variable {visit : U → Bytes → List (UInt64 × UInt64) → D → XferM U (VfsResult × D)} {ancestors : List (UInt64 × UInt64)}
  {handle : Handle} {entries : List FileInfo}

/-- One round reads an entry, and goes into the entry's directory only if there is room. -/
theorem safe_visitEntry (locals : g.Local) {d : Fin g.directories.length} (part : ∀ info ∈ entries, info ∈ g.directories.get d)
    (visits : ∀ ancestors', room g.inodes ancestors' < room g.inodes ancestors →
      ∀ uri above data, EndsBelow g limit ancestors' (visit uri above ancestors' data))
    (uri : U) (above : Bytes) (data : D) (s : State) (w : OpenDirectories) (fits : w.count + room g.inodes ancestors ≤ limit) :
    Action.safe g.Serves (fun w _ => w.count ≤ limit + 1)
      (visitEntry cfg { loopCheck := true, ignoreRecurseError := ignores } (obedient f) visit uri above ancestors handle data) s
      (fun r _ w' => match r with
        | .again _ => ∃ info rest, entries = info :: rest ∧ w' = w.opening handle rest
        | .finish _ => ∃ rest, w' = w.opening handle rest) (fun _ _ => False) (w.opening handle entries) := by
  rw [visitEntry, Action.safe_bind, ask, Action.safe_ask]
  refine ⟨by rw [OpenDirectories.opening_count]; omega, ?_⟩
  rintro ⟨result, info⟩ w' (⟨failed, rfl⟩ | ⟨fine, rest, left, rfl⟩)
  · rw [Action.safe_ite]
    exact ⟨fun _ => ⟨entries, rfl⟩, fun fine => absurd failed fine⟩
  · rw [OpenDirectories.opening_pending, Option.some.injEq] at left
    subst left
    rw [OpenDirectories.reading_opening]
    have again : ∃ info' rest', info :: rest = info' :: rest' ∧ w.opening handle rest = w.opening handle rest' :=
      ⟨info, rest, rfl, rfl⟩
    rw [Action.safe_ite]
    refine ⟨fun failed => absurd fine failed, fun _ => ?_⟩
    rw [Action.safe_ite]
    refine ⟨fun _ => again, fun _ => ?_⟩
    rw [Action.safe_bind]
    refine Action.safe_pure.mpr ?_
    rw [Action.safe_ite]
    refine ⟨fun _ => ⟨rest, rfl⟩, fun _ => ?_⟩
    rw [Action.safe_ite]
    refine ⟨fun asked => ?_, fun _ => again⟩
    have member := part info List.mem_cons_self
    obtain ⟨new, directory⟩ : recursingWillLoop { loopCheck := true, ignoreRecurseError := ignores } ancestors info = false ∧
        info.type = .directory := by simpa using asked
    have less : room g.inodes ((info.inode, info.device) :: ancestors) < room g.inodes ancestors :=
      room_lt_of_lookup (g.mem_inodes member directory) (by simpa [recursingWillLoop, directory] using new)
    rw [if_pos (locals _ (List.get_mem _ _) info member directory), Action.safe_bind]
    refine Action.safe_mono (visits _ less _ _ _ s _ ?_) ?_ fun _ _ => id
    · rw [OpenDirectories.opening_count]
      omega
    · rintro ⟨result, data⟩ s w' rfl
      rw [Action.safe_ite]
      exact ⟨fun _ => ⟨rest, rfl⟩, fun _ => again⟩

theorem endsBelow_visitDirectory (locals : g.Local) : ∀ (fuel : Nat) {ancestors : List (UInt64 × UInt64)},
    room g.inodes ancestors + g.size + 2 ≤ fuel → ∀ uri above data, EndsBelow g limit ancestors
      (visitDirectory cfg infoOptions { loopCheck := true, ignoreRecurseError := ignores } (obedient f) fuel uri above
        ancestors data) := by
  intro fuel
  induction fuel with
  | zero =>
    intro ancestors enough
    omega
  | succ fuel ih =>
    intro ancestors enough uri above data s w fits
    rw [visitDirectory, Action.safe_bind, ask, Action.safe_ask]
    refine ⟨by omega, ?_⟩
    rintro ⟨result, handle⟩ w' (⟨failed, rfl⟩ | ⟨fine, fresh, d, -, rfl⟩)
    · rw [Action.safe_ite]
      exact ⟨fun _ => rfl, fun fine => absurd failed fine⟩
    · rw [Action.safe_ite]
      refine ⟨fun failed => absurd fine failed, fun _ => ?_⟩
      rw [Action.safe_bind]
      apply Action.safe_loop (fun left _ _ w' => ∃ rest, w' = w.opening handle rest ∧ rest.length < left ∧
        ∀ info ∈ rest, info ∈ g.directories.get d)
      · rintro left data s _ ⟨entries, rfl, short, part⟩
        have deeper : ∀ ancestors', room g.inodes ancestors' < room g.inodes ancestors → ∀ uri above data,
            EndsBelow g limit ancestors' (visitDirectory cfg infoOptions { loopCheck := true, ignoreRecurseError := ignores }
              (obedient f) fuel uri above ancestors' data) :=
          fun ancestors' less => ih (by omega)
        refine Action.safe_mono (safe_visitEntry locals part deeper uri above data s w fits) ?_ fun _ _ => id
        intro r s w' after
        cases r with
        | again data =>
          obtain ⟨info, rest, rfl, rfl⟩ := after
          exact ⟨rest, rfl, by simpa using short, fun info member => part info (List.mem_cons_of_mem _ member)⟩
        | finish r =>
          obtain ⟨rest, rfl⟩ := after
          refine ⟨by simp only [OpenDirectories.opening_count]; omega, ?_⟩
          rintro a w' rfl
          exact w.closing_opening handle rest fresh
      · rintro data s w' ⟨rest, -, short, -⟩
        omega
      · refine ⟨_, rfl, ?_, fun _ member => member⟩
        have := g.length_le_size d
        omega

/-- Where all directories are local, a visit with loop checking whose callback heeds it comes to its end,
whatever leads where, with every directory closed that it has opened, and it is never deeper than there are
inodes and devices, and the depth allowed for entries without them. -/
theorem directoryVisitUri_loopCheck_ends (g : DirectoryGraph U) (locals : g.Local) (cfg : Config U) (infoOptions : InfoOptions)
    (ignores : Bool) (f : Bytes → FileInfo → Bool → D → Bool × D) (fuel : Nat)
    (enough : g.inodes.card + vfsMaximumSymbolicLinkDepth + g.size + 1 ≤ fuel) (uri : U) (data : D) (s : State)
    (w : OpenDirectories) :
    Action.safe g.Serves (fun w' _ => w'.count ≤ w.count + (g.inodes.card + vfsMaximumSymbolicLinkDepth))
      (directoryVisitUri cfg infoOptions { loopCheck := true, ignoreRecurseError := ignores } (obedient f) fuel uri data) s
      (fun _ _ w' => w' = w) (fun _ _ => False) w := by
  rw [vfsMaximumSymbolicLinkDepth] at enough ⊢
  rw [directoryVisitUri, Action.safe_bind, ask, Action.safe_ask]
  refine ⟨by omega, ?_⟩
  rintro ⟨result, info⟩ w' rfl
  rw [Action.safe_ite]
  refine ⟨fun _ => rfl, fun _ => ?_⟩
  rw [Action.safe_ite]
  refine ⟨fun _ => rfl, fun _ => ?_⟩
  have space := room_singleton g.inodes (info.inode, info.device)
  have ends : EndsBelow g (w'.count + (g.inodes.card + 255)) [(info.inode, info.device)]
      (visitDirectory cfg infoOptions { loopCheck := true, ignoreRecurseError := ignores } (obedient f) fuel uri []
        [(info.inode, info.device)] data) :=
    endsBelow_visitDirectory locals fuel (by omega) uri [] data
  exact ends s w' (by omega)

end Visit

/-- A directory that is not marked as local, with its inode and device. -/
def unmarked : FileInfo :=
  { name := ascii "d", type := .directory, inode := 7, device := 7, hasInode := true, hasDevice := true }

/-- Every directory has this one in it. -/
def graphOf (info : FileInfo) : DirectoryGraph Bytes where
  directories := [[info]]
  find _ := some ⟨0, Nat.zero_lt_one⟩

def neverStops : Bytes → FileInfo → Bool → Unit → Bool × Unit := fun _ _ _ data => (true, data)

def idle : OpenDirectories where
  pending _ := none
  count := 0

theorem directoryVisitUri_loopCheck_ends_marked :
    Action.safe (graphOf { unmarked with isLocal := true }).Serves
      (fun w _ => w.count ≤ idle.count + ((graphOf { unmarked with isLocal := true }).inodes.card + vfsMaximumSymbolicLinkDepth))
      (directoryVisitUri (plainConfig {}) {} { loopCheck := true } (obedient neverStops) 259 (ascii "/r") ())
      { overwriteMode := .abort } (fun _ _ w => w = idle) (fun _ _ => False) idle :=
  directoryVisitUri_loopCheck_ends (graphOf { unmarked with isLocal := true }) (by decide) (plainConfig {}) {} false neverStops
    259 (by decide) (ascii "/r") () { overwriteMode := .abort } idle

/-- Each directory that is opened has another in it, of which there is nothing among the ancestors. -/
theorem unmarked_descends : ∀ (fuel : Nat) {ancestors : List (UInt64 × UInt64)} {s : State} {w : OpenDirectories} (uri above : Bytes),
    (7, 7) ∉ ancestors → (∀ handle ≥ w.count, w.pending handle = none) →
    ¬ Action.safe (graphOf unmarked).Serves (fun _ _ => True)
      (visitDirectory (plainConfig {}) {} { loopCheck := true } (obedient neverStops) fuel uri above ancestors ()) s
      (fun _ _ _ => True) (fun _ _ => False) w := by
  intro fuel
  induction fuel with
  | zero => exact fun _ _ _ _ holds => holds
  | succ fuel ih =>
    intro ancestors s w uri above new fresh holds
    rw [visitDirectory, Action.safe_bind, ask, Action.safe_ask] at holds
    have opened := holds.2 (.ok, w.count) (w.opening w.count [unmarked])
      (.inr ⟨rfl, fresh _ (Nat.le_refl _), ⟨0, by decide⟩, rfl, rfl⟩)
    rw [Action.safe_ite] at opened
    have rounds := opened.2 (by simp)
    rw [Action.safe_bind] at rounds
    cases fuel with
    | zero => exact rounds
    | succ fuel =>
      rw [loop, Action.loop, Action.safe_bind, visitEntry, Action.safe_bind, ask, Action.safe_ask] at rounds
      have read := rounds.2 (.ok, unmarked) (w.opening w.count []) (.inr ⟨rfl, [], by simp, by simp⟩)
      rw [Action.safe_ite] at read
      have named := read.2 (by simp)
      rw [Action.safe_ite] at named
      have called := named.2 (by decide)
      rw [Action.safe_bind] at called
      replace called := Action.safe_pure.mp called
      have missed : recursingWillLoop { loopCheck := true } ancestors unmarked = false := by
        simpa [recursingWillLoop, unmarked] using lookupAncestor_valid.mpr new
      rw [Action.safe_ite] at called
      have goesOn := called.2 (by simp [neverStops])
      rw [Action.safe_ite] at goesOn
      have deeper := goesOn.1 (by rw [missed]; rfl)
      rw [if_neg (by simp [unmarked]), Action.safe_bind] at deeper
      refine ih _ _ new ?_ (Action.safe_mono deeper (fun _ _ _ _ => trivial) fun _ _ => id)
      intro handle above
      have other : handle ≠ w.count := by
        rw [OpenDirectories.opening_count] at above
        omega
      refine (Function.update_of_ne other _ _).trans (fresh handle ?_)
      rw [OpenDirectories.opening_count] at above
      omega

/-- With no fuel does the visit of such a directory always end. -/
theorem directoryVisitUri_loops : ¬ ∃ fuel : Nat, Action.safe (graphOf unmarked).Serves (fun _ _ => True)
    (directoryVisitUri (plainConfig {}) {} { loopCheck := true } (obedient neverStops) fuel (ascii "/r") ())
    { overwriteMode := .abort } (fun _ _ _ => True) (fun _ _ => False) idle := by
  rintro ⟨fuel, holds⟩
  rw [directoryVisitUri, Action.safe_bind, ask, Action.safe_ask] at holds
  have found := holds.2 (.ok, { name := ascii "r", type := .directory, inode := 1, device := 1, isLocal := true }) idle rfl
  rw [Action.safe_ite] at found
  have directory := found.2 (by simp)
  rw [Action.safe_ite] at directory
  exact unmarked_descends fuel _ _ (by decide) (fun _ _ => rfl) (directory.2 (by simp))

end GnomeVfs.Xfer
