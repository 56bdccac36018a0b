import GnomeVfs.FtpPool

/- The accounts of the pools: which connections a pool counts, and that a pool that is needed is not
freed. -/
namespace GnomeVfs.Ftp

open Interaction Transition

variable {M : Type}

theorem countP_modify {α : Type} (P : α → Bool) (f : α → α) : ∀ {items : List α} {i : Nat} {a : α},
    items[i]? = some a →
      (items.modify i f).countP P + (if P a then 1 else 0) = items.countP P + (if P (f a) then 1 else 0) := by
  intro items
  induction items with
  | nil =>
    intro i a here
    cases here
  | cons first rest ih =>
    intro i a here
    cases i with
    | zero =>
      cases here
      rw [List.modify_zero_cons, List.countP_cons, List.countP_cons]
      omega
    | succ i =>
      have later := ih (i := i) (a := a) here
      rw [List.modify_succ_cons, List.countP_cons, List.countP_cons]
      omega

section Lookups

variable {s : Tables M} {p q c d : Nat} {pool : Pool} {f g : Pool → Pool}

theorem Tables.pool_updatePool (alive : s.pool p = some pool) :
    (s.updatePool p f).pool q = if q = p then some (f pool) else s.pool q := by
  rw [Tables.updatePool, if_pos (by rw [alive]; rfl)]
  show ((s.pools.modify p _)[q]?).join = _
  by_cases same : q = p
  · rw [if_pos same, same, List.getElem?_modify_eq]
    rw [Tables.pool] at alive
    cases here : s.pools[p]? with
    | none =>
      rw [here] at alive
      cases alive
    | some slot =>
      rw [here] at alive
      have slot_eq : slot = some pool := alive
      rw [slot_eq]
      rfl
  · rw [if_neg same, List.getElem?_modify_ne _ _ (Ne.symm same)]
    rfl

theorem Tables.failed_updatePool (alive : s.pool p = some pool) : (s.updatePool p f).failed = s.failed := by
  rw [Tables.updatePool, if_pos (by rw [alive]; rfl)]

theorem Tables.updatePool_frame (s : Tables M) (p : Nat) (f : Pool → Pool) :
    (s.updatePool p f).connectionPools = s.connectionPools ∧ (s.updatePool p f).connections = s.connections ∧
      (s.updatePool p f).connectionPoolTimeout = s.connectionPoolTimeout ∧
      (s.updatePool p f).monitors = s.monitors := by
  rw [Tables.updatePool]
  split
  · exact ⟨rfl, rfl, rfl, rfl⟩
  · exact ⟨rfl, rfl, rfl, rfl⟩

@[simp] theorem Tables.connectionPools_updatePool : (s.updatePool p f).connectionPools = s.connectionPools :=
  (s.updatePool_frame p f).1

@[simp] theorem Tables.connections_updatePool : (s.updatePool p f).connections = s.connections :=
  (s.updatePool_frame p f).2.1

@[simp] theorem Tables.connectionPoolTimeout_updatePool :
    (s.updatePool p f).connectionPoolTimeout = s.connectionPoolTimeout := (s.updatePool_frame p f).2.2.1

@[simp] theorem Tables.monitors_updatePool : (s.updatePool p f).monitors = s.monitors :=
  (s.updatePool_frame p f).2.2.2

theorem Tables.updatePool_updatePool (alive : s.pool p = some pool) :
    (s.updatePool p f).updatePool p g = s.updatePool p (g ∘ f) := by
  have after : (s.updatePool p f).pool p = some (f pool) := by rw [Tables.pool_updatePool alive, if_pos rfl]
  rw [Tables.updatePool.eq_def (s.updatePool p f), if_pos (by rw [after]; rfl), Tables.updatePool,
    if_pos (by rw [alive]; rfl), Tables.updatePool, if_pos (by rw [alive]; rfl)]
  congr 1
  rw [List.modify_modify_eq]
  congr 1
  funext slot
  cases slot with
  | none => rfl
  | some pool => rfl

theorem Tables.connections_updateConnection {entry : Entry M} {f : Entry M → Entry M}
    (here : s.connections[c]? = some entry) :
    (s.updateConnection c f).connections[d]? = if d = c then some (f entry) else s.connections[d]? := by
  show (s.connections.modify c f)[d]? = _
  by_cases same : d = c
  · rw [if_pos same, same, List.getElem?_modify_eq, here]
    rfl
  · rw [if_neg same, List.getElem?_modify_ne _ _ (Ne.symm same)]

end Lookups

section Accounts

/-- A connection in one of these places is counted by its pool. -/
def Place.counted : Place → Bool
  | .asking | .spare | .used => true
  | .building | .gone => false

/-- How many connections are counted by a pool. -/
def Tables.counted (s : Tables M) (p : Nat) : Nat :=
  s.connections.countP fun entry => entry.pool = p ∧ entry.place.counted

/-- The accounts of the pools in a table, with a timer that is pending or not. -/
structure Tables.Accounts (table : List Nat) (pending : Bool) (s : Tables M) : Prop where
  sound : s.failed = false
  distinct : table.Nodup
  listed : ∀ p, p ∈ table ↔ (s.pool p).isSome
  counts : ∀ p pool, s.pool p = some pool → pool.numConnections = s.counted p
  housed : ∀ (c : Nat) (entry : Entry M), s.connections[c]? = some entry → entry.place.counted = true →
    (s.pool entry.pool).isSome
  separate : ∀ p pool, s.pool p = some pool → pool.spareConnections.Nodup
  spares : ∀ p pool, s.pool p = some pool → ∀ c, c ∈ pool.spareConnections ↔
    ∃ entry, s.connections[c]? = some entry ∧ entry.pool = p ∧ entry.place = .spare
  monitored : ∀ p pool, s.pool p = some pool → pool.numMonitors = s.monitors.count p
  watched : ∀ p ∈ s.monitors, (s.pool p).isSome
  timed : ∀ p pool, s.pool p = some pool → pool.spareConnections ≠ [] → pending = true

/-- What holds of the tables while nobody holds the lock. -/
def Tables.Balanced (s : Tables M) : Prop := s.Accounts (s.connectionPools.map (·.2)) s.connectionPoolTimeout

theorem Tables.Accounts.balanced {table : List Nat} {pending : Bool} {s : Tables M} (accounts : s.Accounts table pending)
    (pools : s.connectionPools.map (·.2) = table) (timeout : s.connectionPoolTimeout = pending) : s.Balanced := by
  rw [Tables.Balanced, pools, timeout]
  exact accounts

theorem Tables.Balanced.new : (Tables.new : Tables M).Balanced := by
  have empty : ∀ p, (Tables.new : Tables M).pool p = none := fun p => rfl
  have never : ∀ {p : Nat} {pool : Pool}, (Tables.new : Tables M).pool p ≠ some pool := by
    intro p pool here
    rw [empty] at here
    cases here
  refine ⟨rfl, List.nodup_nil, ?_, fun _ _ here => absurd here never, ?_, fun _ _ here => absurd here never,
    fun _ _ here => absurd here never, fun _ _ here => absurd here never, ?_, fun _ _ here => absurd here never⟩
  · intro p
    rw [empty]
    simp [Tables.new]
  · intro c entry here
    cases here
  · intro p member
    cases member

variable {table : List Nat} {pending : Bool} {s : Tables M} {p c : Nat} {pool : Pool} {entry : Entry M}

/-- What a place counts for. -/
def Place.weight (place : Place) : Int := if place.counted then 1 else 0

theorem counted_modify (here : s.connections[c]? = some entry) (f : Entry M → Entry M)
    (same : (f entry).pool = entry.pool) (q : Nat) :
    ((s.updateConnection c f).counted q : Int) =
      s.counted q + if q = entry.pool then (f entry).place.weight - entry.place.weight else 0 := by
  have counts := countP_modify (fun entry : Entry M => decide (entry.pool = q ∧ entry.place.counted)) f here
  rw [same] at counts
  show ((s.connections.modify c f).countP _ : Int) = s.connections.countP _ + _
  by_cases own : q = entry.pool
  · rw [if_pos own, Place.weight, Place.weight]
    by_cases before : entry.place.counted = true
    · by_cases after : (f entry).place.counted = true
      · simp [own, before, after] at counts ⊢
        omega
      · simp [own, before, after] at counts ⊢
        omega
    · by_cases after : (f entry).place.counted = true
      · simp [own, before, after] at counts ⊢
        omega
      · simp [own, before, after] at counts ⊢
        omega
  · have other : ¬ entry.pool = q := fun same => own same.symm
    rw [if_neg own]
    simp only [other, false_and, decide_false, Bool.false_eq_true, if_false, Nat.add_zero] at counts
    omega

/-- A connection changes, maybe in its place, and its pool takes note of it. -/
theorem Tables.Accounts.transfer (accounts : s.Accounts table pending) (here : s.connections[c]? = some entry)
    (alive : s.pool entry.pool = some pool) {e : Entry M → Entry M} {f : Pool → Pool} {pending' : Bool}
    (same : (e entry).pool = entry.pool)
    (numConnections : (f pool).numConnections = pool.numConnections + ((e entry).place.weight - entry.place.weight))
    (numMonitors : (f pool).numMonitors = pool.numMonitors)
    (separate : (f pool).spareConnections.Nodup)
    (spare : ∀ d, d ∈ (f pool).spareConnections ↔
      (d ∈ pool.spareConnections ∧ d ≠ c) ∨ (d = c ∧ (e entry).place = .spare))
    (timed : (f pool).spareConnections ≠ [] → pending' = true) (later : pending = true → pending' = true) :
    ((s.updateConnection c e).updatePool entry.pool f).Accounts table pending' := by
  have still : (s.updateConnection c e).pool entry.pool = some pool := alive
  have lookup : ∀ q, ((s.updateConnection c e).updatePool entry.pool f).pool q =
      if q = entry.pool then some (f pool) else s.pool q := fun q => Tables.pool_updatePool still
  have some_iff : ∀ q, (((s.updateConnection c e).updatePool entry.pool f).pool q).isSome ↔ (s.pool q).isSome := by
    intro q
    rw [lookup]
    split
    · rename_i own
      rw [own, alive]
      exact Iff.rfl
    · rfl
  have entries : ∀ d, (s.updateConnection c e).connections[d]? =
      if d = c then some (e entry) else s.connections[d]? := fun d => Tables.connections_updateConnection here
  refine ⟨(Tables.failed_updatePool still).trans accounts.sound, accounts.distinct,
    fun q => (accounts.listed q).trans (some_iff q).symm, ?_, ?_, ?_, ?_, ?_, ?_, ?_⟩
  · intro q pool' found
    rw [Tables.counted, Tables.connections_updatePool]
    show pool'.numConnections = ((s.updateConnection c e).counted q : Int)
    rw [counted_modify here e same]
    rw [lookup] at found
    split at found
    · rename_i own
      cases found
      rw [if_pos own, numConnections, own, accounts.counts _ pool alive]
    · rename_i other
      rw [if_neg other, accounts.counts q pool' found, Int.add_zero]
  · intro d other found counted
    rw [Tables.connections_updatePool, entries] at found
    apply (some_iff _).mpr
    split at found
    · cases found
      rw [same, alive]
      rfl
    · exact accounts.housed d other found counted
  · intro q pool' found
    rw [lookup] at found
    split at found
    · cases found
      exact separate
    · exact accounts.separate q pool' found
  · intro q pool' found d
    rw [lookup] at found
    rw [Tables.connections_updatePool, entries]
    by_cases moved : d = c
    · rw [if_pos moved]
      split at found
      · rename_i own
        cases found
        rw [spare, moved]
        constructor
        · rintro (⟨-, never⟩ | ⟨-, there⟩)
          · exact absurd rfl never
          · exact ⟨_, rfl, same.trans own.symm, there⟩
        · rintro ⟨_, stays, -, there⟩
          cases stays
          exact Or.inr ⟨rfl, there⟩
      · rename_i other
        rw [accounts.spares q pool' found, moved]
        constructor
        · rintro ⟨old, was, own, -⟩
          rw [here] at was
          cases was
          exact absurd own.symm other
        · rintro ⟨_, stays, own, -⟩
          cases stays
          exact absurd (own.symm.trans same) other
    · rw [if_neg moved]
      split at found
      · rename_i own
        cases found
        rw [spare, own, ← accounts.spares _ pool alive]
        constructor
        · rintro (⟨was, -⟩ | ⟨never, -⟩)
          · exact was
          · exact absurd never moved
        · exact fun was => Or.inl ⟨was, moved⟩
      · exact accounts.spares q pool' found d
  · intro q pool' found
    rw [lookup] at found
    rw [Tables.monitors_updatePool]
    split at found
    · rename_i own
      cases found
      rw [numMonitors, own]
      exact accounts.monitored _ pool alive
    · exact accounts.monitored q pool' found
  · intro q member
    rw [Tables.monitors_updatePool] at member
    exact (some_iff q).mpr (accounts.watched q member)
  · intro q pool' found filled
    rw [lookup] at found
    split at found
    · cases found
      exact timed filled
    · exact later (accounts.timed q pool' found filled)

theorem Tables.updatePool_same (alive : s.pool p = some pool) {f : Pool → Pool} (fixed : f pool = pool) :
    s.updatePool p f = s := by
  rw [Tables.updatePool, if_pos (by rw [alive]; rfl)]
  have same : s.pools.modify p (Option.map f) = s.pools := by
    apply List.ext_getElem?
    intro q
    by_cases own : q = p
    · rw [own, List.getElem?_modify_eq]
      rw [Tables.pool] at alive
      cases here : s.pools[p]? with
      | none => rfl
      | some slot =>
        rw [here] at alive
        have slot_eq : slot = some pool := alive
        rw [slot_eq]
        show some (some (f pool)) = _
        rw [fixed]
    · rw [List.getElem?_modify_ne _ _ (Ne.symm own)]
  rw [same]

/-- A connection changes, but not in what is counted. -/
theorem Tables.Accounts.amend (accounts : s.Accounts table pending) (here : s.connections[c]? = some entry)
    {e : Entry M → Entry M} (same : (e entry).pool = entry.pool)
    (counted : (e entry).place.counted = entry.place.counted)
    (spare : (e entry).place = .spare ↔ entry.place = .spare) : (s.updateConnection c e).Accounts table pending := by
  have entries : ∀ d, (s.updateConnection c e).connections[d]? =
      if d = c then some (e entry) else s.connections[d]? := fun d => Tables.connections_updateConnection here
  refine ⟨accounts.sound, accounts.distinct, accounts.listed, ?_, ?_, accounts.separate, ?_, accounts.monitored,
    accounts.watched, accounts.timed⟩
  · intro q pool' found
    rw [accounts.counts q pool' found, counted_modify here e same, Place.weight, Place.weight, counted]
    simp
  · intro d other found counts
    rw [entries] at found
    split at found
    · cases found
      rw [counted] at counts
      rw [same]
      exact accounts.housed c entry here counts
    · exact accounts.housed d other found counts
  · intro q pool' found d
    rw [accounts.spares q pool' found, entries]
    by_cases own : d = c
    · rw [if_pos own, own, here]
      constructor
      · rintro ⟨_, stays, pool, place⟩
        cases stays
        exact ⟨_, rfl, same.trans pool, spare.mpr place⟩
      · rintro ⟨_, stays, pool, place⟩
        cases stays
        exact ⟨_, rfl, same.symm.trans pool, spare.mp place⟩
    · rw [if_neg own]

/-- A pool changes, but not in its connections. -/
theorem Tables.Accounts.update (accounts : s.Accounts table pending) (alive : s.pool p = some pool) {f : Pool → Pool}
    {monitors : List Nat} {pending' : Bool} (numConnections : (f pool).numConnections = pool.numConnections)
    (spare : (f pool).spareConnections = pool.spareConnections)
    (monitored : (f pool).numMonitors = monitors.count p)
    (others : ∀ q, q ≠ p → monitors.count q = s.monitors.count q) (later : pending = true → pending' = true) :
    Tables.Accounts table pending' { s.updatePool p f with monitors := monitors } := by
  have lookup : ∀ q, (s.updatePool p f).pool q = if q = p then some (f pool) else s.pool q := fun q =>
    Tables.pool_updatePool alive
  -- every pool has an old record that agrees with the new one
  have old : ∀ q pool', (s.updatePool p f).pool q = some pool' → ∃ before, s.pool q = some before ∧
      pool'.numConnections = before.numConnections ∧ pool'.spareConnections = before.spareConnections := by
    intro q pool' here
    rw [lookup] at here
    split at here
    · rename_i same
      cases here
      exact ⟨pool, by rw [same]; exact alive, numConnections, spare⟩
    · exact ⟨pool', here, rfl, rfl⟩
  have some_iff : ∀ q, ((s.updatePool p f).pool q).isSome ↔ (s.pool q).isSome := by
    intro q
    rw [lookup]
    split
    · rename_i same
      rw [same, alive]
      exact Iff.rfl
    · rfl
  refine ⟨(Tables.failed_updatePool alive).trans accounts.sound, accounts.distinct,
    fun q => (accounts.listed q).trans (some_iff q).symm, ?_, ?_, ?_, ?_, ?_, ?_, ?_⟩
  · intro q pool' here
    obtain ⟨before, was, same, -⟩ := old q pool' here
    show pool'.numConnections = ((s.updatePool p f).counted q : Int)
    rw [same, Tables.counted, Tables.connections_updatePool]
    exact accounts.counts q before was
  · intro c entry here counted
    have here : (s.updatePool p f).connections[c]? = some entry := here
    rw [Tables.connections_updatePool] at here
    exact (some_iff _).mpr (accounts.housed c entry here counted)
  · intro q pool' here
    obtain ⟨before, was, -, same⟩ := old q pool' here
    rw [same]
    exact accounts.separate q before was
  · intro q pool' here c
    obtain ⟨before, was, -, same⟩ := old q pool' here
    show _ ↔ ∃ entry, (s.updatePool p f).connections[c]? = some entry ∧ _
    rw [same, Tables.connections_updatePool]
    exact accounts.spares q before was c
  · intro q pool' here
    show pool'.numMonitors = monitors.count q
    have here : (s.updatePool p f).pool q = some pool' := here
    rw [lookup] at here
    split at here
    · rename_i same
      cases here
      rw [same]
      exact monitored
    · rename_i other
      rw [others q other]
      exact accounts.monitored q pool' here
  · intro q member
    apply (some_iff q).mpr
    by_cases same : q = p
    · rw [same, alive]
      rfl
    · apply accounts.watched q
      have positive : 0 < monitors.count q := List.count_pos_iff.mpr member
      rw [others q same] at positive
      exact List.count_pos_iff.mp positive
  · intro q pool' here filled
    obtain ⟨before, was, -, same⟩ := old q pool' here
    rw [same] at filled
    exact later (accounts.timed q before was filled)

theorem Tables.Accounts.note (accounts : s.Accounts table pending) (alive : s.pool p = some pool) {f : Pool → Pool}
    (numConnections : (f pool).numConnections = pool.numConnections)
    (spare : (f pool).spareConnections = pool.spareConnections)
    (numMonitors : (f pool).numMonitors = pool.numMonitors) : (s.updatePool p f).Accounts table pending := by
  have noted : Tables.Accounts table pending { s.updatePool p f with monitors := s.monitors } :=
    accounts.update alive numConnections spare (by rw [numMonitors]; exact accounts.monitored p pool alive)
      (fun _ _ => rfl) id
  have same : { s.updatePool p f with monitors := s.monitors } = s.updatePool p f := by
    rw [← Tables.monitors_updatePool (s := s) (p := p) (f := f)]
  rwa [same] at noted

/-- A connection begins to be made. -/
theorem Tables.Accounts.begin (accounts : s.Accounts table pending) (building : entry.place = .building) :
    Tables.Accounts table pending { s with connections := s.connections ++ [entry] } := by
  have uncounted : entry.place.counted = false := by rw [building]; rfl
  refine ⟨accounts.sound, accounts.distinct, accounts.listed, ?_, ?_, accounts.separate, ?_, accounts.monitored,
    accounts.watched, accounts.timed⟩
  · intro q pool' here
    rw [accounts.counts q pool' here]
    show ((s.connections.countP _ : Nat) : Int) = (((s.connections ++ [entry]).countP _ : Nat) : Int)
    rw [List.countP_append, List.countP_singleton, uncounted]
    simp
  · intro d other here counted
    have here : (s.connections ++ [entry])[d]? = some other := here
    rw [List.getElem?_append] at here
    split at here
    · exact accounts.housed d other here counted
    · have last := List.mem_singleton.mp (List.mem_of_getElem? here)
      rw [last, uncounted] at counted
      cases counted
  · intro q pool' here d
    rw [accounts.spares q pool' here]
    show _ ↔ ∃ other, (s.connections ++ [entry])[d]? = some other ∧ _
    rw [List.getElem?_append]
    split
    · rfl
    · rename_i outside
      rw [List.getElem?_eq_none (by omega)]
      constructor
      · rintro ⟨_, never, -⟩
        cases never
      · rintro ⟨other, last, -, spare⟩
        rw [List.mem_singleton.mp (List.mem_of_getElem? last), building] at spare
        cases spare

theorem Tables.pool_lt (alive : (s.pool p).isSome) : p < s.pools.length := by
  by_contra outside
  rw [Tables.pool, List.getElem?_eq_none (by omega)] at alive
  cases alive

theorem Tables.Accounts.counted_eq_zero (accounts : s.Accounts table pending) (dead : s.pool p = none) :
    s.counted p = 0 := by
  rw [Tables.counted, List.countP_eq_zero]
  intro entry member counts
  obtain ⟨c, here⟩ := List.getElem?_of_mem member
  have both : entry.pool = p ∧ entry.place.counted = true := by simpa using counts
  have alive := accounts.housed c entry here both.2
  rw [both.1, dead] at alive
  cases alive

/-- A pool is added. -/
theorem Tables.Accounts.extend (accounts : s.Accounts table pending) :
    Tables.Accounts (table ++ [s.pools.length]) pending { s with pools := s.pools ++ [some .new] } := by
  have lookup : ∀ q, Tables.pool { s with pools := s.pools ++ [some .new] } q =
      if q = s.pools.length then some .new else s.pool q := by
    intro q
    show ((s.pools ++ [some Pool.new])[q]?).join = _
    by_cases last : q = s.pools.length
    · rw [if_pos last, last, List.getElem?_concat_length]
      rfl
    · rw [if_neg last]
      by_cases inside : q < s.pools.length
      · rw [List.getElem?_append_left inside]
        rfl
      · rw [Tables.pool, List.getElem?_eq_none (by rw [List.length_append, List.length_singleton]; omega),
          List.getElem?_eq_none (by omega)]
  have outside : s.pool s.pools.length = none := by
    rw [Tables.pool, List.getElem?_eq_none (Nat.le_refl _)]
    rfl
  have later : ∀ q, (s.pool q).isSome → q ≠ s.pools.length := by
    intro q alive same
    rw [same, outside] at alive
    cases alive
  refine ⟨accounts.sound, ?_, ?_, ?_, ?_, ?_, ?_, ?_, ?_, ?_⟩
  · rw [List.nodup_append]
    refine ⟨accounts.distinct, by simp, ?_⟩
    intro q member r last same
    exact later q ((accounts.listed q).mp member) (same.trans (List.mem_singleton.mp last))
  · intro q
    rw [lookup, List.mem_append, List.mem_singleton, accounts.listed]
    by_cases last : q = s.pools.length
    · simp [last]
    · simp [last]
  · intro q pool' here
    rw [lookup] at here
    split at here
    · rename_i last
      cases here
      show (0 : Int) = (s.counted q : Int)
      rw [last, accounts.counted_eq_zero outside]
      rfl
    · exact accounts.counts q pool' here
  · intro d other here counted
    have alive := accounts.housed d other here counted
    rw [lookup, if_neg (later _ alive)]
    exact alive
  · intro q pool' here
    rw [lookup] at here
    split at here
    · cases here
      exact List.nodup_nil
    · exact accounts.separate q pool' here
  · intro q pool' here d
    rw [lookup] at here
    split at here
    · rename_i last
      cases here
      constructor
      · intro never
        cases never
      · rintro ⟨other, found, own, spare⟩
        have alive := accounts.housed d other found (by rw [spare]; rfl)
        exact absurd (own.trans last) (later _ alive)
    · exact accounts.spares q pool' here d
  · intro q pool' here
    rw [lookup] at here
    split at here
    · rename_i last
      cases here
      show (0 : Int) = (s.monitors.count q : Int)
      rw [List.count_eq_zero.mpr fun member => later _ (accounts.watched q member) last]
      rfl
    · exact accounts.monitored q pool' here
  · intro q member
    have alive := accounts.watched q member
    rw [lookup, if_neg (later _ alive)]
    exact alive
  · intro q pool' here filled
    rw [lookup] at here
    split at here
    · cases here
      exact absurd rfl filled
    · exact accounts.timed q pool' here filled

/-- A pool that nobody needs is freed, and no assertion fails. -/
theorem Tables.Accounts.free (accounts : s.Accounts table pending) (alive : s.pool p = some pool)
    (unused : pool.numConnections = 0) (unwatched : pool.numMonitors ≤ 0) {table' : List Nat}
    (distinct : table'.Nodup) (removed : ∀ q, q ∈ table' ↔ q ∈ table ∧ q ≠ p) :
    (ftpConnectionPoolFree p s).Accounts table' pending := by
  have count : s.counted p = 0 := by
    have counts := accounts.counts p pool alive
    omega
  have uncounted : ∀ (c : Nat) (entry : Entry M), s.connections[c]? = some entry → entry.place.counted = true →
      entry.pool ≠ p := by
    intro c entry here counted own
    rw [Tables.counted, List.countP_eq_zero] at count
    exact count entry (List.mem_of_getElem? here) (by simp [own, counted])
  have empty : pool.spareConnections = [] := by
    apply List.eq_nil_iff_forall_not_mem.mpr
    intro c member
    obtain ⟨entry, here, own, spare⟩ := (accounts.spares p pool alive c).mp member
    exact uncounted c entry here (by rw [spare]; rfl) own
  have monitors : s.monitors.count p = 0 := by
    have monitored := accounts.monitored p pool alive
    omega
  have unmonitored : pool.numMonitors = 0 := by
    rw [accounts.monitored p pool alive, monitors]
    rfl
  have freed : ftpConnectionPoolFree p s = { s with pools := s.pools.set p none, failed := s.failed } := by
    rw [ftpConnectionPoolFree, alive]
    simp [unused, unmonitored, empty]
  have lookup : ∀ q, (ftpConnectionPoolFree p s).pool q = if q = p then none else s.pool q := by
    intro q
    rw [freed]
    show ((s.pools.set p none)[q]?).join = _
    by_cases same : q = p
    · rw [if_pos same, same, List.getElem?_set_self (Tables.pool_lt (by rw [alive]; rfl))]
      rfl
    · rw [if_neg same, List.getElem?_set_ne (Ne.symm same)]
      rfl
  have found : ∀ {q : Nat} {pool' : Pool}, (ftpConnectionPoolFree p s).pool q = some pool' →
      q ≠ p ∧ s.pool q = some pool' := by
    intro q pool' here
    rw [lookup] at here
    split at here
    · cases here
    · rename_i other
      exact ⟨other, here⟩
  have connections : (ftpConnectionPoolFree p s).connections = s.connections := by rw [freed]
  have watching : (ftpConnectionPoolFree p s).monitors = s.monitors := by rw [freed]
  refine ⟨by rw [freed]; exact accounts.sound, distinct, ?_, ?_, ?_, ?_, ?_, ?_, ?_, ?_⟩
  · intro q
    rw [removed, accounts.listed, lookup]
    by_cases same : q = p
    · simp [same]
    · simp [same]
  · intro q pool' here
    rw [Tables.counted, connections]
    exact accounts.counts q pool' (found here).2
  · intro c entry here counted
    rw [connections] at here
    rw [lookup, if_neg (uncounted c entry here counted)]
    exact accounts.housed c entry here counted
  · intro q pool' here
    exact accounts.separate q pool' (found here).2
  · intro q pool' here
    rw [connections]
    exact accounts.spares q pool' (found here).2
  · intro q pool' here
    rw [watching]
    exact accounts.monitored q pool' (found here).2
  · intro q member
    rw [watching] at member
    have other : q ≠ p := by
      intro same
      rw [same] at member
      exact List.count_eq_zero.mp monitors member
    rw [lookup, if_neg other]
    exact accounts.watched q member
  · intro q pool' here
    exact accounts.timed q pool' (found here).2

end Accounts

end GnomeVfs.Ftp
