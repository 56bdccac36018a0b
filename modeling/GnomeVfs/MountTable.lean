import GnomeVfs.CString
import GnomeVfs.Comparator

/- The entries of the mount tables and of the list of connected servers, the functions that sort
them, and the difference of two sorted lists: `gnome-vfs-unix-mounts.c` and
`gnome-vfs-volume-monitor-daemon.c`. -/
namespace GnomeVfs

/-- The first bytes that are different decide. A string that ends there is the smaller one. -/
def strcmp : Bytes → Bytes → Int
  | [], [] => 0
  | [], _ :: _ => -1
  | _ :: _, [] => 1
  | a :: s, b :: t => if a = b then strcmp s t else (a.toNat : Int) - b.toNat

namespace Mounts

open Comparator

def strcmpNull : Option Bytes → Option Bytes → Int
  | none, none => 0
  | none, some _ => -1
  | some _, none => 1
  | some s, some t => strcmp s t

/-- The difference of two flags. -/
def flagDifference (a b : Bool) : Int := (a.toNat : Int) - b.toNat

structure UnixMount where
  mountPath : Option Bytes
  devicePath : Option Bytes
  filesystemType : Option Bytes
  isReadOnly : Bool
  deriving DecidableEq

structure UnixMountPoint where
  mountPath : Option Bytes
  devicePath : Option Bytes
  filesystemType : Option Bytes
  devOpt : Option Bytes
  isReadOnly : Bool
  isUserMountable : Bool
  isLoopback : Bool
  deriving DecidableEq

structure ConnectedServer where
  id : Bytes
  uri : Bytes
  displayName : Bytes
  displayNameKey : Bytes
  icon : Bytes
  deriving DecidableEq

/-- `if (res != 0) return res;` after each field. -/
def unixMountCompare : UnixMount → UnixMount → Int :=
  thenBy (fun a b => strcmpNull a.mountPath b.mountPath) <|
  thenBy (fun a b => strcmpNull a.devicePath b.devicePath) <|
  thenBy (fun a b => strcmpNull a.filesystemType b.filesystemType) <|
  fun a b => flagDifference a.isReadOnly b.isReadOnly

def unixMountPointCompare : UnixMountPoint → UnixMountPoint → Int :=
  thenBy (fun a b => strcmpNull a.mountPath b.mountPath) <|
  thenBy (fun a b => strcmpNull a.devicePath b.devicePath) <|
  thenBy (fun a b => strcmpNull a.filesystemType b.filesystemType) <|
  thenBy (fun a b => strcmpNull a.devOpt b.devOpt) <|
  thenBy (fun a b => flagDifference a.isReadOnly b.isReadOnly) <|
  thenBy (fun a b => flagDifference a.isUserMountable b.isUserMountable) <|
  fun a b => flagDifference a.isLoopback b.isLoopback

def connectedServerCompare : ConnectedServer → ConnectedServer → Int :=
  thenBy (fun a b => strcmp a.id b.id) <|
  thenBy (fun a b => strcmp a.uri b.uri) <|
  thenBy (fun a b => strcmp a.displayNameKey b.displayNameKey) <|
  fun a b => strcmp a.icon b.icon

/-- What the comparison of connected servers looks at. -/
def ConnectedServer.compared (server : ConnectedServer) : Bytes × Bytes × Bytes × Bytes :=
  (server.id, server.uri, server.displayNameKey, server.icon)

/-- The two lists that are built, last entry first. -/
structure Diff (α : Type) where
  added : List α
  removed : List α

variable {α κ : Type}

/-- The steps along the second list while the first one stays at `a`. -/
def diffAgainst (compare : α → α → Int) (a : α) (list1 : List α) (rest : List α → Diff α → Diff α) :
    List α → Diff α → Diff α
  | [], d => { d with removed := (a :: list1).reverse ++ d.removed }
  | b :: list2, d =>
    let order := compare a b
    if order < 0 then rest (b :: list2) { d with removed := a :: d.removed }
    else if order > 0 then diffAgainst compare a list1 rest list2 { d with added := b :: d.added }
    else rest list2 d

def diffFrom (compare : α → α → Int) : List α → List α → Diff α → Diff α
  | [], list2, d => { d with added := list2.reverse ++ d.added }
  | a :: list1, list2, d => diffAgainst compare a list1 (diffFrom compare list1) list2 d

def diffSortedLists (compare : α → α → Int) (list1 list2 : List α) : Diff α := diffFrom compare list1 list2 ⟨[], []⟩

theorem strcmp_verdict (s t : Bytes) : verdict strcmp s t = compare s t := by
  induction s generalizing t with
  | nil =>
    cases t with
    | nil => rfl
    | cons b t => rfl
  | cons a s ih =>
    cases t with
    | nil => rfl
    | cons b t =>
      rw [List.compare_cons_cons, verdict, strcmp]
      split
      · rename_i same
        rw [same, Std.ReflOrd.compare_self, Ordering.eq_then]
        exact ih t
      · rename_i different
        have apart : a.toNat ≠ b.toNat := fun same => different (UInt8.toNat_inj.mp same)
        rcases Nat.lt_or_gt_of_ne apart with below | above
        · rw [Int.compare_eq_lt.mpr (by omega), Std.compare_eq_lt.mpr (UInt8.lt_iff_toNat_lt.mpr below), Ordering.lt_then]
        · rw [Int.compare_eq_gt.mpr (by omega), Std.compare_eq_gt.mpr (UInt8.lt_iff_toNat_lt.mpr above), Ordering.gt_then]

theorem strcmpNull_verdict (s t : Option Bytes) : verdict strcmpNull s t = compare s t := by
  cases s with
  | none =>
    cases t with
    | none => rfl
    | some t => rfl
  | some s =>
    cases t with
    | none => rfl
    | some t => exact strcmp_verdict s t

theorem strcmp_orders : Orders strcmp id := by
  have same : verdict strcmp = compare := by
    funext s t
    exact strcmp_verdict s t
  refine Orders.of_verdict ?_ fun s t => ?_
  · rw [same]
    infer_instance
  · rw [same]
    exact Std.compare_eq_iff_eq

theorem strcmpNull_orders : Orders strcmpNull id := by
  have same : verdict strcmpNull = compare := by
    funext s t
    exact strcmpNull_verdict s t
  refine Orders.of_verdict ?_ fun s t => ?_
  · rw [same]
    infer_instance
  · rw [same]
    exact Std.compare_eq_iff_eq

theorem flagDifference_orders : Orders flagDifference id := by
  refine ⟨?_, ?_, ?_, ?_⟩ <;> decide

theorem unixMountCompare_orders : Orders unixMountCompare id := by
  refine Orders.congr
    ((strcmpNull_orders.on UnixMount.mountPath).thenBy <|
      (strcmpNull_orders.on UnixMount.devicePath).thenBy <|
      (strcmpNull_orders.on UnixMount.filesystemType).thenBy <|
      flagDifference_orders.on UnixMount.isReadOnly) fun a b => ?_
  cases a
  cases b
  simp

theorem unixMountPointCompare_orders : Orders unixMountPointCompare id := by
  refine Orders.congr
    ((strcmpNull_orders.on UnixMountPoint.mountPath).thenBy <|
      (strcmpNull_orders.on UnixMountPoint.devicePath).thenBy <|
      (strcmpNull_orders.on UnixMountPoint.filesystemType).thenBy <|
      (strcmpNull_orders.on UnixMountPoint.devOpt).thenBy <|
      (flagDifference_orders.on UnixMountPoint.isReadOnly).thenBy <|
      (flagDifference_orders.on UnixMountPoint.isUserMountable).thenBy <|
      flagDifference_orders.on UnixMountPoint.isLoopback) fun a b => ?_
  cases a
  cases b
  simp

theorem connectedServerCompare_orders : Orders connectedServerCompare ConnectedServer.compared :=
  (strcmp_orders.on ConnectedServer.id).thenBy <|
    (strcmp_orders.on ConnectedServer.uri).thenBy <|
    (strcmp_orders.on ConnectedServer.displayNameKey).thenBy <|
    strcmp_orders.on ConnectedServer.icon

section difference

variable [DecidableEq κ]

/-- How often each key is in what was built: as often as it was there before, and once more for
each time that it is in one list more often than in the other. -/
def Counts (key : α → κ) (list1 list2 : List α) (before after : Diff α) : Prop :=
  ∀ k, (after.removed.map key).count k =
      (before.removed.map key).count k + ((list1.map key).count k - (list2.map key).count k) ∧
    (after.added.map key).count k =
      (before.added.map key).count k + ((list2.map key).count k - (list1.map key).count k)

variable {compare : α → α → Int} {key : α → κ}

theorem count_cons (key : α → κ) (k : κ) (a : α) (l : List α) :
    ((a :: l).map key).count k = (l.map key).count k + if key a = k then 1 else 0 := by
  rw [List.map_cons, List.count_cons]
  simp only [beq_iff_eq]

theorem diffAgainst_counts (orders : Orders compare key) {a : α} {list1 : List α}
    {rest : List α → Diff α → Diff α}
    (counts : ∀ list2 d, list2.Pairwise (compare · · ≤ 0) → Counts key list1 list2 d (rest list2 d))
    (sorted1 : (a :: list1).Pairwise (compare · · ≤ 0)) {list2 : List α} (d : Diff α)
    (sorted2 : list2.Pairwise (compare · · ≤ 0)) :
    Counts key (a :: list1) list2 d (diffAgainst compare a list1 rest list2 d) := by
  induction list2 generalizing d with
  | nil =>
    intro k
    have reversed := (List.reverse_perm ((a :: list1).map key)).count_eq k
    simp only [diffAgainst, List.map_append, List.map_reverse, List.count_append, List.map_nil, List.count_nil,
      Nat.sub_zero, Nat.zero_sub, reversed]
    omega
  | cons b list2 ih =>
    intro k
    simp only [diffAgainst]
    have in1 := count_cons key k a list1
    have in2 := count_cons key k b list2
    by_cases below : compare a b < 0
    · -- the entry of the first list is not in the second one
      rw [if_pos below]
      have spec := counts (b :: list2) { d with removed := a :: d.removed } sorted2 k
      have absent := List.count_eq_zero.mpr (key_notMem orders sorted2 below)
      dsimp only at spec
      rw [count_cons key k a d.removed] at spec
      by_cases same : key a = k
      · subst same
        rw [if_pos rfl] at in1 spec
        omega
      · rw [if_neg same] at in1 spec
        omega
    · rw [if_neg below]
      by_cases above : compare a b > 0
      · rw [if_pos above]
        have spec := ih { d with added := b :: d.added } sorted2.of_cons k
        have absent := List.count_eq_zero.mpr (key_notMem orders sorted1 ((orders.opposite a b).mp above))
        dsimp only at spec
        rw [count_cons key k b d.added] at spec
        by_cases same : key b = k
        · subst same
          rw [if_pos rfl] at in2 spec
          omega
        · rw [if_neg same] at in2 spec
          omega
      · rw [if_neg above]
        have spec := counts list2 d sorted2.of_cons k
        have same : key a = key b := (orders.zero a b).mp (by omega)
        rw [same] at in1
        omega

theorem diffFrom_counts (orders : Orders compare key) {list1 list2 : List α} (d : Diff α)
    (sorted1 : list1.Pairwise (compare · · ≤ 0)) (sorted2 : list2.Pairwise (compare · · ≤ 0)) :
    Counts key list1 list2 d (diffFrom compare list1 list2 d) := by
  induction list1 generalizing list2 d with
  | nil =>
    intro k
    have reversed := (List.reverse_perm (list2.map key)).count_eq k
    simp only [diffFrom, List.map_append, List.map_reverse, List.count_append, List.map_nil, List.count_nil,
      Nat.sub_zero, Nat.zero_sub, reversed]
    omega
  | cons a list1 ih => exact diffAgainst_counts orders (fun list2 d => ih d sorted1.of_cons) sorted1 d sorted2

/-- What was removed and what was added, with the entries known by their keys. -/
structure Difference (key : α → κ) (old new : List α) (d : Diff α) : Prop where
  removed : (d.removed.map key : Multiset κ) = (old.map key : Multiset κ) - (new.map key : Multiset κ)
  added : (d.added.map key : Multiset κ) = (new.map key : Multiset κ) - (old.map key : Multiset κ)

theorem diffSortedLists_difference (orders : Orders compare key) {list1 list2 : List α}
    (sorted1 : list1.Pairwise (compare · · ≤ 0)) (sorted2 : list2.Pairwise (compare · · ≤ 0)) :
    Difference key list1 list2 (diffSortedLists compare list1 list2) := by
  have counts := diffFrom_counts orders ⟨[], []⟩ sorted1 sorted2
  constructor
  · ext k
    rw [Multiset.coe_sub, Multiset.coe_count, Multiset.coe_count, List.count_diff, diffSortedLists, (counts k).1]
    simp
  · ext k
    rw [Multiset.coe_sub, Multiset.coe_count, Multiset.coe_count, List.count_diff, diffSortedLists, (counts k).2]
    simp

end difference

/-- The three comparisons are total preorders that tell apart all that they look at, and lists that
are sorted by one of them are subtracted as multisets. -/
theorem sorted_lists_subtract :
    (Orders unixMountCompare id ∧ ∀ old new : List UnixMount,
      old.Pairwise (unixMountCompare · · ≤ 0) → new.Pairwise (unixMountCompare · · ≤ 0) →
        Difference id old new (diffSortedLists unixMountCompare old new)) ∧
    (Orders unixMountPointCompare id ∧ ∀ old new : List UnixMountPoint,
      old.Pairwise (unixMountPointCompare · · ≤ 0) → new.Pairwise (unixMountPointCompare · · ≤ 0) →
        Difference id old new (diffSortedLists unixMountPointCompare old new)) ∧
    (Orders connectedServerCompare ConnectedServer.compared ∧ ∀ old new : List ConnectedServer,
      old.Pairwise (connectedServerCompare · · ≤ 0) → new.Pairwise (connectedServerCompare · · ≤ 0) →
        Difference ConnectedServer.compared old new (diffSortedLists connectedServerCompare old new)) :=
  ⟨⟨unixMountCompare_orders, fun _ _ => diffSortedLists_difference unixMountCompare_orders⟩,
    ⟨unixMountPointCompare_orders, fun _ _ => diffSortedLists_difference unixMountPointCompare_orders⟩,
    ⟨connectedServerCompare_orders, fun _ _ => diffSortedLists_difference connectedServerCompare_orders⟩⟩

def sharedServer (id : Bytes) : ConnectedServer := ⟨id, ascii "ftp://h", ascii "H", ascii "h", ascii "share"⟩

/-- One of two equal entries is gone, and a new one is there. -/
theorem one_of_two_removed :
    Difference ConnectedServer.compared [sharedServer [49], sharedServer [49], sharedServer [50]] [sharedServer [49], sharedServer [50], sharedServer [51]]
      (diffSortedLists connectedServerCompare [sharedServer [49], sharedServer [49], sharedServer [50]]
        [sharedServer [49], sharedServer [50], sharedServer [51]]) :=
  sorted_lists_subtract.2.2.2 _ _ (by decide) (by decide)

end Mounts

end GnomeVfs
