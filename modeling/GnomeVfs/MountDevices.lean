import GnomeVfs.BigEndian
import GnomeVfs.MountTable

/- The device numbers of mounts, found by a helper process that may hang in `stat`:
`_gnome_vfs_unix_mount_get_unix_device`. -/
namespace GnomeVfs.Mounts

/-- What `poll` returns: -1 with `EINTR`, 0 or another error, or that there is something to read. -/
inductive Poll where
  | interrupted | nothing | readable

/-- One turn of the parent's loop: what `poll` returns each time that it is called, and how many
bytes the helper has sent by the time of the `read`. -/
structure Turn where
  polls : List Poll
  sent : Nat

/-- What becomes of one try. Where there is a helper, its `stat` may answer in its own way for each
mount, which is known by its path and by how many mounts come after it, and it may be gone or hang
after any number of bytes. -/
inductive Attempt where
  | pipeFails
  | forkFails
  | helper (stat : Nat → Option Bytes → Option UInt64) (written : Nat) (turns : Nat → Turn)

/-- `sizeof (dev_t)`. -/
def sizeofDev : Nat := 8

/-- The bytes of a `dev_t`. Both sides have the same order of bytes. -/
def devBytes (dev : UInt64) : Bytes := BigEndian.encode sizeofDev dev.toNat

def bytesDev (bytes : Bytes) : UInt64 := UInt64.ofNat (BigEndian.decode bytes)

/-- `unix_device = stat (mount->mount_path, &statbuf) == 0 ? statbuf.st_dev : 0`. -/
def unixDevice (stat : Nat → Option Bytes → Option UInt64) (after : Nat) (mount : UnixMount) : UInt64 :=
  (stat after mount.mountPath).getD 0

/-- What the helper writes, as long as it lives. -/
def helperWrites (stat : Nat → Option Bytes → Option UInt64) : List UnixMount → Bytes
  | [] => []
  | mount :: mounts => devBytes (unixDevice stat mounts.length mount) ++ helperWrites stat mounts

/-- `do .. while (res == -1 && errno == EINTR)`, and whether `res > 0` then. -/
def awaitHelper : List Poll → Bool
  | [] => false
  | .interrupted :: polls => awaitHelper polls
  | .nothing :: _ => false
  | .readable :: _ => true

/-- The parent's loop: the mounts that are left when it ends, and the result, last device first. -/
def readDevices (turns : Nat → Turn) : List UnixMount → Nat → Bytes → List UInt64 → List UnixMount × List UInt64
  | [], _, _, result => ([], result)
  | mount :: mounts, turn, pipe, result =>
    if !awaitHelper (turns turn).polls then (mount :: mounts, result)
    else if (pipe.take (min sizeofDev (turns turn).sent)).length ≠ sizeofDev then (mount :: mounts, result)
    else readDevices turns mounts (turn + 1) (pipe.drop sizeofDev) (bytesDev (pipe.take sizeofDev) :: result)

/-- What is at `error:`. -/
def giveUp : List UnixMount × List UInt64 → List UnixMount × List UInt64
  | ([], result) => ([], result)
  | (_ :: mounts, result) => (mounts, 0 :: result)

/-- The body of the outer loop. -/
def attemptDevices : Attempt → List UnixMount → List UInt64 → List UnixMount × List UInt64
  | .pipeFails, mounts, result => giveUp (mounts, result)
  | .forkFails, mounts, result => giveUp (mounts, result)
  | .helper stat written turns, mounts, result =>
    giveUp (readDevices turns mounts 0 ((helperWrites stat mounts).take written) result)

/-- The outer loop, which is stopped after so many tries. -/
def devicesFrom (attempts : Nat → Attempt) : Nat → Nat → List UnixMount → List UInt64 → Option (List UInt64)
  | _, _, [], result => some result.reverse
  | 0, _, _ :: _, _ => none
  | fuel + 1, attempt, mount :: mounts, result =>
    let next := attemptDevices (attempts attempt) (mount :: mounts) result
    devicesFrom attempts fuel (attempt + 1) next.1 next.2

def unixMountGetUnixDevice (attempts : Nat → Attempt) (fuel : Nat) (mounts : List UnixMount) : Option (List UInt64) :=
  devicesFrom attempts fuel 0 mounts []

/-- The loop of `update_mtab_volumes` over the mounts and the devices: `GPOINTER_TO_UINT` keeps the
low half, and there is nothing to be read where the devices are at their end. -/
def walkDevices {α : Type} : List α → List UInt64 → Option (List (α × UInt32))
  | [], _ => some []
  | _ :: _, [] => none
  | mount :: mounts, dev :: devices => (walkDevices mounts devices).map ((mount, dev.toUInt32) :: ·)

@[simp] theorem bytesDev_devBytes (dev : UInt64) : bytesDev (devBytes dev) = dev := by
  rw [bytesDev, devBytes, BigEndian.decode_encode_of_lt dev.toNat_lt, UInt64.ofNat_toNat]

@[simp] theorem length_devBytes (dev : UInt64) : (devBytes dev).length = sizeofDev :=
  BigEndian.length_encode _ _

/-- A device for each mount: zero, or what the `stat` of some helper gave for this very mount. -/
inductive Paired (attempts : Nat → Attempt) : List UnixMount → List UInt64 → Prop where
  | nil : Paired attempts [] []
  | zero {mounts devices} (mount : UnixMount) : Paired attempts mounts devices →
      Paired attempts (mount :: mounts) (0 :: devices)
  | reported {mounts devices} (mount : UnixMount) {attempt stat written turns} :
      attempts attempt = .helper stat written turns → Paired attempts mounts devices →
      Paired attempts (mount :: mounts) (unixDevice stat mounts.length mount :: devices)

variable {attempts : Nat → Attempt} {mounts : List UnixMount} {devices : List UInt64}

theorem Paired.length_eq (paired : Paired attempts mounts devices) : devices.length = mounts.length := by
  induction paired with
  | nil => rfl
  | zero mount _ ih => rw [List.length_cons, List.length_cons, ih]
  | reported mount _ _ ih => rw [List.length_cons, List.length_cons, ih]

theorem Paired.get (paired : Paired attempts mounts devices) {k : Nat} {mount : UnixMount}
    (there : mounts[k]? = some mount) :
    ∃ dev, devices[k]? = some dev ∧ (dev = 0 ∨ ∃ attempt stat written turns,
      attempts attempt = .helper stat written turns ∧ dev = unixDevice stat (mounts.length - (k + 1)) mount) := by
  induction paired generalizing k with
  | nil => simp at there
  | zero first _ ih =>
    cases k with
    | zero => exact ⟨0, rfl, Or.inl rfl⟩
    | succ k =>
      rw [List.length_cons, Nat.add_sub_add_right]
      exact ih there
  | reported first helper _ ih =>
    cases k with
    | zero =>
      obtain rfl := Option.some.inj there
      exact ⟨_, rfl, Or.inr ⟨_, _, _, _, helper, rfl⟩⟩
    | succ k =>
      rw [List.length_cons, Nat.add_sub_add_right]
      exact ih there

/-- The devices that were put in front of the result belong to the mounts that are done. -/
def Advances (attempts : Nat → Attempt) (mounts : List UnixMount) (result : List UInt64)
    (next : List UnixMount × List UInt64) : Prop :=
  ∃ answers, next.2 = answers.reverse ++ result ∧ next.1.length ≤ mounts.length ∧
    ∀ devices, Paired attempts next.1 devices → Paired attempts mounts (answers ++ devices)

theorem Advances.refl (attempts : Nat → Attempt) (mounts : List UnixMount) (result : List UInt64) :
    Advances attempts mounts result (mounts, result) :=
  ⟨[], rfl, Nat.le_refl _, fun _ paired => paired⟩

/-- A helper's answers come in the order of the mounts, whole or not at all. -/
theorem readDevices_advances {attempt written : Nat} {stat : Nat → Option Bytes → Option UInt64}
    {turns : Nat → Turn} (helper : attempts attempt = .helper stat written turns) (mounts : List UnixMount)
    (turn left : Nat) (result : List UInt64) :
    Advances attempts mounts result (readDevices turns mounts turn ((helperWrites stat mounts).take left) result) := by
  induction mounts generalizing turn left result with
  | nil => exact Advances.refl _ _ _
  | cons mount mounts ih =>
    rw [readDevices]
    split
    · exact Advances.refl _ _ _
    · split
      · exact Advances.refl _ _ _
      · rename_i whole
        rw [not_not, List.length_take, List.length_take] at whole
        have all : sizeofDev ≤ left := by omega
        obtain ⟨more, rfl⟩ := Nat.exists_eq_add_of_le all
        have first : ((helperWrites stat (mount :: mounts)).take (sizeofDev + more)).take sizeofDev =
            devBytes (unixDevice stat mounts.length mount) := by
          rw [List.take_take, Nat.min_eq_left (Nat.le_add_right _ _), helperWrites,
            List.take_left' (length_devBytes _)]
        have others : ((helperWrites stat (mount :: mounts)).take (sizeofDev + more)).drop sizeofDev =
            (helperWrites stat mounts).take more := by
          rw [List.drop_take, Nat.add_sub_cancel_left, helperWrites, List.drop_left' (length_devBytes _)]
        rw [first, others, bytesDev_devBytes]
        obtain ⟨answers, grown, shorter, pairs⟩ := ih (turn + 1) more (unixDevice stat mounts.length mount :: result)
        refine ⟨unixDevice stat mounts.length mount :: answers, ?_, Nat.le_succ_of_le shorter, fun devices paired => ?_⟩
        · rw [grown, List.reverse_cons, List.append_assoc, List.singleton_append]
        · exact Paired.reported mount helper (pairs devices paired)

theorem giveUp_advances {result : List UInt64} {next : List UnixMount × List UInt64} (some_left : mounts ≠ [])
    (advances : Advances attempts mounts result next) :
    Advances attempts mounts result (giveUp next) ∧ (giveUp next).1.length < mounts.length := by
  have positive := List.length_pos_iff.mpr some_left
  obtain ⟨left, so_far⟩ := next
  obtain ⟨answers, grown, shorter, pairs⟩ := advances
  cases left with
  | nil => exact ⟨⟨answers, grown, shorter, pairs⟩, positive⟩
  | cons mount left =>
    refine ⟨⟨answers ++ [0], ?_, Nat.le_of_succ_le shorter, fun devices paired => ?_⟩, shorter⟩
    · change 0 :: so_far = _
      rw [List.reverse_append, List.reverse_singleton, List.singleton_append, List.cons_append, ← grown]
    · rw [List.append_assoc, List.singleton_append]
      exact pairs _ (Paired.zero mount paired)

theorem attemptDevices_advances {attempts : Nat → Attempt} {mounts : List UnixMount} (some_left : mounts ≠ [])
    (attempt : Nat) (result : List UInt64) :
    Advances attempts mounts result (attemptDevices (attempts attempt) mounts result) ∧
      (attemptDevices (attempts attempt) mounts result).1.length < mounts.length := by
  cases outcome : attempts attempt with
  | pipeFails => exact giveUp_advances some_left (Advances.refl _ _ _)
  | forkFails => exact giveUp_advances some_left (Advances.refl _ _ _)
  | helper stat written turns =>
    exact giveUp_advances some_left (readDevices_advances outcome mounts 0 written result)

theorem devicesFrom_paired (attempts : Nat → Attempt) {fuel : Nat} (enough : mounts.length ≤ fuel) (attempt : Nat)
    (result : List UInt64) :
    ∃ devices, devicesFrom attempts fuel attempt mounts result = some (result.reverse ++ devices) ∧
      Paired attempts mounts devices := by
  induction fuel generalizing mounts attempt result with
  | zero =>
    obtain rfl := List.eq_nil_of_length_eq_zero (Nat.le_zero.mp enough)
    exact ⟨[], by rw [devicesFrom, List.append_nil], Paired.nil⟩
  | succ fuel ih =>
    cases mounts with
    | nil => exact ⟨[], by rw [devicesFrom, List.append_nil], Paired.nil⟩
    | cons mount mounts =>
      obtain ⟨⟨answers, grown, -, pairs⟩, shorter⟩ := @attemptDevices_advances attempts (mount :: mounts) (List.cons_ne_nil _ _)
        attempt result
      obtain ⟨devices, rest, paired⟩ := ih (Nat.le_of_lt_succ (Nat.lt_of_lt_of_le shorter enough)) (attempt + 1)
        (attemptDevices (attempts attempt) (mount :: mounts) result).2
      refine ⟨answers ++ devices, ?_, pairs devices paired⟩
      rw [devicesFrom]
      exact rest.trans (by rw [grown, List.reverse_append, List.reverse_reverse, List.append_assoc])

theorem walkDevices_total {α : Type} {mounts : List α} (same : devices.length = mounts.length) :
    walkDevices mounts devices = some (mounts.zip (devices.map UInt64.toUInt32)) := by
  induction mounts generalizing devices with
  | nil => rfl
  | cons mount mounts ih =>
    cases devices with
    | nil => simp at same
    | cons dev devices =>
      rw [walkDevices, ih (Nat.succ.inj same)]
      rfl

/-- As many tries as there are mounts are enough, each mount gets a device of its own or zero, and
the walk over both lists reads a device for each mount. -/
theorem devices_paired (attempts : Nat → Attempt) (mounts : List UnixMount) :
    ∃ devices, unixMountGetUnixDevice attempts mounts.length mounts = some devices ∧
      devices.length = mounts.length ∧
      (∀ k mount, mounts[k]? = some mount → ∃ dev, devices[k]? = some dev ∧
        (dev = 0 ∨ ∃ attempt stat written turns, attempts attempt = .helper stat written turns ∧
          dev = unixDevice stat (mounts.length - (k + 1)) mount)) ∧
      walkDevices mounts devices = some (mounts.zip (devices.map UInt64.toUInt32)) := by
  obtain ⟨devices, ends, paired⟩ := devicesFrom_paired attempts (Nat.le_refl mounts.length) 0 []
  exact ⟨devices, ends, paired.length_eq, fun k mount there => paired.get there, walkDevices_total paired.length_eq⟩

end GnomeVfs.Mounts
