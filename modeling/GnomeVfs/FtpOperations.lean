import GnomeVfs.FtpAccount

/- Each function that runs with the lock held keeps the accounts. -/
namespace GnomeVfs.Ftp

open Interaction Transition

variable {M : Type} {s : Tables M} {table : List Nat} {pending : Bool} {p q c d : Nat} {pool : Pool} {entry : Entry M}

theorem Tables.move_eq (here : s.connections[c]? = some entry) (place : Place) (delta : Int) :
    s.move c place delta = (s.updateConnection c fun entry => { entry with place := place }).updatePool entry.pool
      fun pool => { pool with numConnections := pool.numConnections + delta } := by
  rw [Tables.move, here]

variable {place : Place} {delta : Int}

theorem Tables.connections_move (here : s.connections[c]? = some entry) :
    (s.move c place delta).connections[d]? = if d = c then some { entry with place := place } else s.connections[d]? := by
  rw [Tables.move_eq here, Tables.connections_updatePool, Tables.connections_updateConnection here]

theorem Tables.pool_move (here : s.connections[c]? = some entry) (alive : s.pool entry.pool = some pool) :
    (s.move c place delta).pool q =
      if q = entry.pool then some { pool with numConnections := pool.numConnections + delta } else s.pool q := by
  rw [Tables.move_eq here]
  exact Tables.pool_updatePool (s := s.updateConnection c _) alive

theorem Tables.connectionPools_move :
    (s.move c place delta).connectionPools = s.connectionPools := by
  rw [Tables.move]
  split
  · rfl
  · exact Tables.connectionPools_updatePool

theorem Tables.connectionPoolTimeout_move :
    (s.move c place delta).connectionPoolTimeout = s.connectionPoolTimeout := by
  rw [Tables.move]
  split
  · rfl
  · exact Tables.connectionPoolTimeout_updatePool

theorem Tables.Accounts.move (accounts : s.Accounts table pending) (here : s.connections[c]? = some entry)
    (alive : s.pool entry.pool = some pool) (was : entry.place ≠ .spare) (becomes : place ≠ .spare)
    (counts : delta = place.weight - entry.place.weight) :
    (s.move c place delta).Accounts table pending := by
  rw [Tables.move_eq here]
  refine accounts.transfer here alive rfl (by rw [counts]) rfl (accounts.separate _ pool alive) ?_
    (accounts.timed _ pool alive) id
  intro d
  rw [accounts.spares _ pool alive]
  by_cases own : d = c
  · rw [own, here]
    simp [was, becomes]
  · simp [own]

theorem Tables.Accounts.take (accounts : s.Accounts table pending) (alive : s.pool p = some pool) {rest : List Nat}
    (first : pool.spareConnections = c :: rest) : ∃ entry, s.connections[c]? = some entry ∧ entry.pool = p ∧
      entry.place = .spare ∧ ((s.move c .used 0).updatePool p fun pool =>
        { pool with spareConnections := rest }).Accounts table pending := by
  obtain ⟨entry, here, own, spare⟩ := (accounts.spares p pool alive c).mp (by rw [first]; exact List.mem_cons_self)
  refine ⟨entry, here, own, spare, ?_⟩
  rw [← own] at alive ⊢
  have still : (s.updateConnection c fun entry => { entry with place := .used }).pool entry.pool = some pool := alive
  have separate := accounts.separate _ pool alive
  rw [first, List.nodup_cons] at separate
  rw [Tables.move_eq here, Tables.updatePool_updatePool still]
  refine accounts.transfer here alive rfl (by rw [spare]; rfl) rfl separate.2 ?_ ?_ id
  · intro d
    show d ∈ rest ↔ _
    rw [first, List.mem_cons]
    constructor
    · intro member
      exact Or.inl ⟨Or.inr member, fun same => separate.1 (same ▸ member)⟩
    · rintro (⟨same | member, other⟩ | ⟨-, never⟩)
      · exact absurd same other
      · exact member
      · cases never
  · intro _
    apply accounts.timed _ pool alive
    rw [first]
    exact List.cons_ne_nil _ _

theorem Tables.Accounts.giveBack (accounts : s.Accounts table pending) (here : s.connections[c]? = some entry)
    (used : entry.place = .used) (alive : s.pool entry.pool = some pool) :
    ((s.move c .spare 0).updatePool entry.pool fun pool =>
      { pool with spareConnections := c :: pool.spareConnections }).Accounts table true := by
  have still : (s.updateConnection c fun entry => { entry with place := .spare }).pool entry.pool = some pool := alive
  rw [Tables.move_eq here, Tables.updatePool_updatePool still]
  have absent : c ∉ pool.spareConnections := by
    intro member
    obtain ⟨other, found, -, spare⟩ := (accounts.spares _ pool alive c).mp member
    rw [here] at found
    cases found
    rw [used] at spare
    cases spare
  refine accounts.transfer here alive rfl (by rw [used]; rfl) rfl ?_ ?_ (fun _ => rfl) fun _ => rfl
  · exact List.nodup_cons.mpr ⟨absent, accounts.separate _ pool alive⟩
  · intro d
    show d ∈ c :: pool.spareConnections ↔ _
    rw [List.mem_cons]
    constructor
    · rintro (same | member)
      · exact Or.inr ⟨same, rfl⟩
      · exact Or.inl ⟨member, fun same => absent (same ▸ member)⟩
    · rintro (⟨member, -⟩ | ⟨same, -⟩)
      · exact Or.inr member
      · exact Or.inl same

/-- The pool that a caller in an authentication callback is making this connection for. -/
def Tables.askedFor (s : Tables M) (c : Nat) : Option Nat :=
  (s.connections[c]?).bind fun entry => if entry.place = .asking then Option.some entry.pool else none

variable {t : Tables M}

theorem Tables.askedFor_congr (same : t.connections = s.connections) : t.askedFor = s.askedFor := by
  funext d
  rw [Tables.askedFor, Tables.askedFor, same]

@[simp] theorem Tables.askedFor_updatePool {f : Pool → Pool} : (s.updatePool p f).askedFor = s.askedFor :=
  Tables.askedFor_congr Tables.connections_updatePool

theorem Tables.askedFor_updateConnection (here : s.connections[c]? = some entry) (e : Entry M → Entry M) :
    (s.updateConnection c e).askedFor =
      Function.update s.askedFor c (if (e entry).place = .asking then some (e entry).pool else none) := by
  funext d
  rw [Tables.askedFor, Tables.connections_updateConnection here]
  by_cases same : d = c
  · rw [if_pos same, same, Function.update_self]
    rfl
  · rw [if_neg same, Function.update_of_ne same]
    rfl

theorem Tables.askedFor_move (here : s.connections[c]? = some entry) (place : Place) (delta : Int) :
    (s.move c place delta).askedFor =
      Function.update s.askedFor c (if place = .asking then some entry.pool else none) := by
  rw [Tables.move_eq here, Tables.askedFor_updatePool, Tables.askedFor_updateConnection here]

theorem Tables.askedFor_eq_none (here : s.connections[c]? = some entry) (other : entry.place ≠ .asking) :
    s.askedFor c = none := by
  rw [Tables.askedFor, here]
  exact if_neg other

theorem Tables.askedFor_updateConnection_of_ne (here : s.connections[c]? = some entry)
    (was : entry.place ≠ .asking) {e : Entry M → Entry M} (becomes : (e entry).place ≠ .asking) :
    (s.updateConnection c e).askedFor = s.askedFor := by
  rw [Tables.askedFor_updateConnection here, if_neg becomes, ← Tables.askedFor_eq_none here was]
  exact Function.update_eq_self c _

theorem Tables.askedFor_move_of_ne (here : s.connections[c]? = some entry) (was : entry.place ≠ .asking)
    (becomes : place ≠ .asking) (delta : Int) : (s.move c place delta).askedFor = s.askedFor := by
  rw [Tables.move_eq here, Tables.askedFor_updatePool]
  exact Tables.askedFor_updateConnection_of_ne here was becomes

/-- The connections are as they were, apart from spare ones that have been given up. -/
def Tables.Retires (s t : Tables M) : Prop :=
  ∀ d : Nat, t.connections[d]? = s.connections[d]? ∨ ∃ entry : Entry M, s.connections[d]? = some entry ∧
    entry.place = .spare ∧ t.connections[d]? = some { entry with place := .gone }

theorem Tables.retires_of_connections (same : t.connections = s.connections) : s.Retires t := by
  intro d
  rw [same]
  exact Or.inl rfl

theorem Tables.Retires.trans {t u : Tables M} (first : s.Retires t) (second : t.Retires u) : s.Retires u := by
  intro d
  rcases second d with same | ⟨entry, here, spare, gone⟩
  · rw [same]
    exact first d
  · rcases first d with same | ⟨other, -, -, gone'⟩
    · exact Or.inr ⟨entry, by rw [← same, here], spare, gone⟩
    · rw [gone'] at here
      cases here
      cases spare

theorem Tables.Retires.askedFor (retires : s.Retires t) : t.askedFor = s.askedFor := by
  funext d
  rcases retires d with same | ⟨entry, here, spare, gone⟩
  · rw [Tables.askedFor, Tables.askedFor, same]
  · rw [Tables.askedFor_eq_none gone (by simp), Tables.askedFor_eq_none here (by rw [spare]; decide)]

theorem Tables.retires_destroy (here : s.connections[c]? = some entry) (spare : entry.place = .spare) :
    s.Retires (ftpConnectionDestroy c s) := by
  intro d
  rw [ftpConnectionDestroy, Tables.connections_move here]
  by_cases same : d = c
  · rw [if_pos same, same]
    exact Or.inr ⟨entry, here, spare, rfl⟩
  · rw [if_neg same]
    exact Or.inl rfl

/-- The spare connections of a pool are destroyed one by one, and then the pool forgets them. -/
theorem Tables.Accounts.destroyAll : ∀ (l : List Nat) {s : Tables M} {pool : Pool}, s.pool p = some pool →
    (s.updatePool p fun pool => { pool with spareConnections := l }).Accounts table pending →
      ((l.foldl (fun s c => ftpConnectionDestroy c s) s).updatePool p fun pool =>
        { pool with spareConnections := [] }).Accounts table pending ∧
      ((l.foldl (fun s c => ftpConnectionDestroy c s) s).pool p).isSome ∧
      (∀ q, q ≠ p → (l.foldl (fun s c => ftpConnectionDestroy c s) s).pool q = s.pool q) ∧
      s.Retires (l.foldl (fun s c => ftpConnectionDestroy c s) s)
  | [], _, _, alive, accounts => ⟨accounts, by rw [List.foldl_nil, alive]; rfl, fun _ _ => rfl, fun _ => Or.inl rfl⟩
  | c :: rest, s, pool, alive, accounts => by
    have listing : (s.updatePool p fun pool => { pool with spareConnections := c :: rest }).pool p =
        some { pool with spareConnections := c :: rest } := by rw [Tables.pool_updatePool alive, if_pos rfl]
    obtain ⟨entry, here, own, spare⟩ := (accounts.spares p _ listing c).mp List.mem_cons_self
    have separate : (c :: rest).Nodup := accounts.separate p _ listing
    rw [List.nodup_cons] at separate
    rw [Tables.connections_updatePool] at here
    rw [← own] at alive
    have gone : (s.updateConnection c fun entry => { entry with place := .gone }).pool entry.pool = some pool := alive
    have destroyed : ftpConnectionDestroy c s = (s.updateConnection c fun entry => { entry with place := .gone }).updatePool
        entry.pool fun pool => { pool with numConnections := pool.numConnections + -1 } := Tables.move_eq here _ _
    have next : (ftpConnectionDestroy c s).pool p = some { pool with numConnections := pool.numConnections + -1 } := by
      rw [destroyed, Tables.pool_updatePool gone, if_pos own.symm]
    have swap : (s.updatePool p fun pool => { pool with spareConnections := c :: rest }).updateConnection c
        (fun entry => { entry with place := .gone }) = (s.updateConnection c fun entry =>
          { entry with place := .gone }).updatePool p fun pool => { pool with spareConnections := c :: rest } := by
      rw [← own, Tables.updatePool, if_pos (by rw [alive]; rfl), Tables.updatePool, if_pos (by rw [gone]; rfl)]
      rfl
    have without := accounts.transfer (c := c) (by rw [Tables.connections_updatePool, here]) (by rw [own, listing])
      (e := fun entry => { entry with place := .gone })
      (f := fun pool => { pool with numConnections := pool.numConnections + -1, spareConnections := rest })
      rfl (by rw [spare]; rfl) rfl separate.2 ?_ ?_ fun later : pending = true => later
    · have same : (ftpConnectionDestroy c s).updatePool p (fun pool => { pool with spareConnections := rest }) =
          ((s.updatePool p fun pool => { pool with spareConnections := c :: rest }).updateConnection c
            fun entry => { entry with place := .gone }).updatePool entry.pool
              fun pool => { pool with numConnections := pool.numConnections + -1, spareConnections := rest } := by
        rw [swap, destroyed, ← own, Tables.updatePool_updatePool gone, Tables.updatePool_updatePool gone]
        rfl
      rw [← same] at without
      obtain ⟨kept, still, others, retires⟩ := Tables.Accounts.destroyAll rest next without
      refine ⟨kept, still, ?_, ?_⟩
      · intro q other
        rw [List.foldl_cons, others q other, destroyed, Tables.pool_updatePool gone, if_neg (by rw [own]; exact other)]
        rfl
      · exact (Tables.retires_destroy here spare).trans retires
    · intro d
      show d ∈ rest ↔ (d ∈ c :: rest ∧ d ≠ c) ∨ _
      rw [List.mem_cons]
      constructor
      · intro member
        exact Or.inl ⟨Or.inr member, fun same => separate.1 (same ▸ member)⟩
      · rintro (⟨same | member, other⟩ | ⟨-, never⟩)
        · exact absurd same other
        · exact member
        · cases never
    · intro _
      exact accounts.timed p _ listing (List.cons_ne_nil _ _)

/-- One pool is looked at. -/
theorem Tables.Accounts.reapPool (accounts : s.Accounts table pending) (alive : s.pool p = some pool) (now : Nat)
    {remove continue' : Bool} {s' : Tables M} (reaped : ftpConnectionPoolReap now p s = (remove, continue', s')) :
    (remove = true → ∀ table' : List Nat, table'.Nodup → (∀ q, q ∈ table' ↔ q ∈ table ∧ q ≠ p) →
      s'.Accounts table' pending) ∧ (remove = false → s'.Accounts table pending) ∧
      (∀ q, q ≠ p → s'.pool q = s.pool q) ∧ s.Retires s' ∧
      ∀ pool', s'.pool p = some pool' → pool'.spareConnections ≠ [] → continue' = true := by
  rw [ftpConnectionPoolReap, alive] at reaped
  dsimp only at reaped
  split at reaped
  · cases reaped
    refine ⟨fun never => absurd never (by decide), fun _ => accounts, fun _ _ => rfl, fun _ => Or.inl rfl, ?_⟩
    intro pool' here filled
    rw [alive] at here
    cases here
    exact decide_eq_true (Or.inl filled)
  · have listing := Tables.updatePool_same alive (f := fun other => { other with spareConnections := pool.spareConnections }) rfl
    have listed : (s.updatePool p fun other => { other with spareConnections := pool.spareConnections }).Accounts table
        pending := by
      rw [listing]
      exact accounts
    obtain ⟨kept, still, others, retires⟩ := Tables.Accounts.destroyAll pool.spareConnections alive listed
    obtain ⟨before, was⟩ := Option.isSome_iff_exists.mp still
    have after := Tables.pool_updatePool (q := p) (f := fun pool => { pool with spareConnections := [] }) was
    have same : ∀ q, q ≠ p → ((pool.spareConnections.foldl (fun s c => ftpConnectionDestroy c s) s).updatePool p
        fun pool => { pool with spareConnections := [] }).pool q = s.pool q := by
      intro q other
      rw [Tables.pool_updatePool was, if_neg other, others q other]
    rw [if_pos rfl] at after
    rw [after] at reaped
    dsimp only at reaped
    split at reaped
    · rename_i unused
      cases reaped
      refine ⟨fun _ table' distinct removed => kept.free after unused.1 unused.2 distinct removed,
        fun never => absurd never (by decide), ?_, ?_, ?_⟩
      · intro q other
        rw [ftpConnectionPoolFree, after]
        show ((Tables.pools _).set p none)[q]?.join = _
        rw [List.getElem?_set_ne (Ne.symm other)]
        exact same q other
      · rw [ftpConnectionPoolFree, after]
        exact retires.trans (Tables.retires_of_connections Tables.connections_updatePool)
      · intro pool' here
        rw [ftpConnectionPoolFree, after] at here
        have here : ((Tables.pools _).set p none)[p]?.join = some pool' := here
        rw [List.getElem?_set_self (Tables.pool_lt (by rw [after]; rfl))] at here
        cases here
    · cases reaped
      refine ⟨fun never => absurd never (by decide), fun _ => kept, same,
        retires.trans (Tables.retires_of_connections Tables.connections_updatePool), ?_⟩
      intro pool' here filled
      rw [after] at here
      cases here
      exact absurd rfl filled

/-- The pools are looked at one after the other: those behind, those that were kept, and what is
said of the timer. -/
theorem Tables.Accounts.reap (now : Nat → Nat) : ∀ (entries : List (Key × Nat)) {s : Tables M} (done : List Nat),
    s.Accounts (done ++ entries.map (·.2)) true → ∀ {continue' : Bool} {kept : List (Key × Nat)} {s' : Tables M},
      reapEntries now entries s = (continue', kept, s') →
        s'.Accounts (done ++ kept.map (·.2)) true ∧ (∀ q, q ∉ entries.map (·.2) → s'.pool q = s.pool q) ∧
          s.Retires s' ∧ ∀ q pool', q ∈ entries.map (·.2) → s'.pool q = some pool' → pool'.spareConnections ≠ [] → continue' = true
  | [], s, done, accounts, _, _, _, reaped => by
    cases reaped
    refine ⟨accounts, fun _ _ => rfl, fun _ => Or.inl rfl, ?_⟩
    intro q pool' never
    cases never
  | entry :: rest, s, done, accounts, continue', kept, s', reaped => by
    have distinct := accounts.distinct
    rw [List.map_cons, List.nodup_append, List.nodup_cons] at distinct
    obtain ⟨front, ⟨absent, back⟩, apart⟩ := distinct
    obtain ⟨pool, alive⟩ := Option.isSome_iff_exists.mp
      ((accounts.listed entry.2).mp (List.mem_append_right done List.mem_cons_self))
    cases first : ftpConnectionPoolReap (now entry.2) entry.2 s with | mk remove both =>
    obtain ⟨continue₁, s₁⟩ := both
    cases later : reapEntries now rest s₁ with | mk continue₂ both =>
    obtain ⟨kept₂, s₂⟩ := both
    rw [reapEntries, first] at reaped
    dsimp only at reaped
    rw [later] at reaped
    cases reaped
    obtain ⟨removed, stays, others, retires, timer⟩ := accounts.reapPool alive (now entry.2) first
    have next : ∃ done', s₁.Accounts (done' ++ rest.map (·.2)) true ∧
        done ++ (if remove = true then kept₂ else entry :: kept₂).map (·.2) = done' ++ kept₂.map (·.2) := by
      cases remove with
      | true =>
        refine ⟨done, removed rfl _ ?_ ?_, rfl⟩
        · exact List.nodup_append.mpr ⟨front, back, fun q member r last => apart q member r (List.mem_cons_of_mem _ last)⟩
        · intro q
          rw [List.map_cons, List.mem_append, List.mem_append, List.mem_cons]
          constructor
          · rintro (behind | before)
            · exact ⟨Or.inl behind, fun same => apart q behind entry.2 List.mem_cons_self same⟩
            · exact ⟨Or.inr (Or.inr before), fun same => absent (same ▸ before)⟩
          · rintro ⟨behind | same | before, other⟩
            · exact Or.inl behind
            · exact absurd same other
            · exact Or.inr before
      | false =>
        refine ⟨done ++ [entry.2], ?_, ?_⟩
        · have kept := stays rfl
          rwa [List.append_assoc]
        · rw [List.append_assoc]
          rfl
    obtain ⟨done', accounts₁, same⟩ := next
    obtain ⟨accounts₂, frame, retires₂, timers⟩ := Tables.Accounts.reap now rest done' accounts₁ later
    refine ⟨by rw [same]; exact accounts₂, ?_, retires.trans retires₂, ?_⟩
    · intro q outside
      rw [List.map_cons, List.mem_cons, not_or] at outside
      rw [frame q outside.2, others q outside.1]
    · intro q pool' inside here filled
      rw [Bool.or_eq_true]
      rw [List.map_cons, List.mem_cons] at inside
      rcases inside with own | before
      · rw [own, frame entry.2 absent] at here
        exact Or.inl (timer pool' here filled)
      · exact Or.inr (timers q pool' before here filled)

/-- The accounts do not depend on whether a timer is pending, as long as there is one for the spare
connections. -/
theorem Tables.Accounts.schedule (accounts : s.Accounts table pending) {pending' : Bool}
    (timed : ∀ p pool, s.pool p = some pool → pool.spareConnections ≠ [] → pending' = true) :
    s.Accounts table pending' := { accounts with timed := timed }

theorem Tables.Balanced.lookup (balanced : s.Balanced) (uri : Uri M) :
    (ftpConnectionPoolLookup uri s).2.Balanced ∧
      ((ftpConnectionPoolLookup uri s).2.pool (ftpConnectionPoolLookup uri s).1).isSome ∧
      (ftpConnectionPoolLookup uri s).2.connections = s.connections ∧
      (ftpConnectionPoolLookup uri s).2.monitors = s.monitors := by
  rw [ftpConnectionPoolLookup]
  split
  · rename_i key p found
    refine ⟨balanced, ?_, rfl, rfl⟩
    exact (balanced.listed p).mp (List.mem_map.mpr ⟨(key, p), List.mem_of_find?_eq_some found, rfl⟩)
  · have extended := balanced.extend
    refine ⟨?_, ?_, rfl, rfl⟩
    · rw [Tables.Balanced, List.map_append]
      exact { extended with }
    · show ((s.pools ++ [some Pool.new])[s.pools.length]?).join.isSome
      rw [List.getElem?_concat_length]
      rfl

theorem Tables.Balanced.note (balanced : s.Balanced) (alive : s.pool p = some pool) {f : Pool → Pool}
    (numConnections : (f pool).numConnections = pool.numConnections)
    (spare : (f pool).spareConnections = pool.spareConnections)
    (numMonitors : (f pool).numMonitors = pool.numMonitors) : (s.updatePool p f).Balanced := by
  rw [Tables.Balanced, Tables.connectionPools_updatePool, Tables.connectionPoolTimeout_updatePool]
  exact Tables.Accounts.note balanced alive numConnections spare numMonitors

theorem Tables.Balanced.move (balanced : s.Balanced) (here : s.connections[c]? = some entry)
    (alive : s.pool entry.pool = some pool) (was : entry.place ≠ .spare) (becomes : place ≠ .spare)
    (counts : delta = place.weight - entry.place.weight) :
    (s.move c place delta).Balanced := by
  rw [Tables.Balanced, Tables.connectionPools_move, Tables.connectionPoolTimeout_move]
  exact Tables.Accounts.move balanced here alive was becomes counts

/-- The record of a connection changes, or what is said of its socket. -/
theorem Tables.Balanced.amend (balanced : s.Balanced) (here : s.connections[c]? = some entry)
    {e : Entry M → Entry M} (same : (e entry).pool = entry.pool) (place : (e entry).place = entry.place) :
    (s.updateConnection c e).Balanced :=
  Tables.Accounts.amend balanced here same (by rw [place]) (by rw [place])

theorem Tables.Balanced.release (balanced : s.Balanced) (here : s.connections[c]? = some entry)
    (used : entry.place = .used) (errorRelease : Bool) :
    (ftpConnectionRelease c errorRelease s).Balanced ∧ (ftpConnectionRelease c errorRelease s).askedFor = s.askedFor := by
  obtain ⟨pool, alive⟩ := Option.isSome_iff_exists.mp (balanced.housed c entry here (by rw [used]; rfl))
  let cleared := s.updateConnection c fun entry => { entry with record := { entry.record with fivefifty := .notFound } }
  have amended : cleared.Balanced := balanced.amend here rfl rfl
  have entry' : cleared.connections[c]? = some { entry with record := { entry.record with fivefifty := .notFound } } := by
    rw [Tables.connections_updateConnection here, if_pos rfl]
  have asked : cleared.askedFor = s.askedFor :=
    Tables.askedFor_updateConnection_of_ne here (by rw [used]; decide) (by rw [used]; decide)
  cases errorRelease with
  | true =>
    have destroyed : (ftpConnectionDestroy c cleared).Balanced :=
      amended.move entry' alive (by rw [used]; decide) (by decide) (by rw [used]; rfl)
    constructor
    · have pending : (ftpConnectionDestroy c cleared).Accounts _ true := destroyed.schedule fun _ _ _ _ => rfl
      exact Tables.Accounts.balanced (show Tables.Accounts _ true _ from { pending with }) rfl rfl
    · exact (Tables.askedFor_move_of_ne entry' (by rw [used]; decide) (by decide) _).trans asked
  | false =>
    have spare := Tables.Accounts.giveBack amended entry' used alive
    rw [ftpConnectionRelease]
    dsimp only
    rw [if_neg (by decide), entry']
    constructor
    · exact Tables.Accounts.balanced (show Tables.Accounts _ true _ from { spare with })
        (by rw [Tables.connectionPools_updatePool, Tables.connectionPools_move]) rfl
    · refine (Tables.askedFor_updatePool.trans ?_).trans asked
      exact Tables.askedFor_move_of_ne entry' (by rw [used]; decide) (by decide) _

theorem connections_ftpConnectionRelease (here : s.connections[c]? = some entry) (errorRelease : Bool) :
    (ftpConnectionRelease c errorRelease s).connections[d]? = if d = c then
      some { entry with record := { entry.record with fivefifty := .notFound }, place := if errorRelease then .gone else .spare }
      else s.connections[d]? := by
  have cleared : (s.updateConnection c fun entry => { entry with record := { entry.record with fivefifty := .notFound } }
      ).connections[c]? = some { entry with record := { entry.record with fivefifty := .notFound } } := by
    rw [Tables.connections_updateConnection here, if_pos rfl]
  have others : d ≠ c → (s.updateConnection c fun entry =>
      { entry with record := { entry.record with fivefifty := .notFound } }).connections[d]? = s.connections[d]? := by
    intro other
    rw [Tables.connections_updateConnection here, if_neg other]
  cases errorRelease with
  | true =>
    refine (Tables.connections_move cleared).trans ?_
    by_cases same : d = c
    · rw [if_pos same, if_pos same]
      rfl
    · rw [if_neg same, if_neg same, others same]
  | false =>
    rw [ftpConnectionRelease]
    dsimp only
    rw [if_neg (by decide), cleared, Tables.connections_updatePool, Tables.connections_move cleared]
    by_cases same : d = c
    · rw [if_pos same, if_pos same]
      rfl
    · rw [if_neg same, if_neg same, others same]

theorem Tables.Balanced.reap (balanced : s.Balanced) (now : Nat → Nat) :
    (ftpConnectionPoolsReap now s).Balanced ∧ s.Retires (ftpConnectionPoolsReap now s) := by
  cases reaped : reapEntries now s.connectionPools s with | mk continue' both =>
  obtain ⟨kept, s'⟩ := both
  have pending : s.Accounts ([] ++ s.connectionPools.map (·.2)) true := balanced.schedule fun _ _ _ _ => rfl
  obtain ⟨accounts, frame, retires, timers⟩ := Tables.Accounts.reap now s.connectionPools [] pending reaped
  have result : ftpConnectionPoolsReap now s =
      { s' with connectionPools := kept, connectionPoolTimeout := continue' } := by
    rw [ftpConnectionPoolsReap, reaped]
  rw [result]
  refine ⟨{ accounts with timed := ?_ }, retires⟩
  intro q pool here filled
  by_cases inside : q ∈ s.connectionPools.map (·.2)
  · exact timers q pool inside here filled
  · have outside : s.pool q = some pool := by rw [← frame q inside]; exact here
    exact absurd ((balanced.listed q).mpr (by rw [outside]; rfl)) inside

theorem Tables.Balanced.monitorAdd (balanced : s.Balanced) (uri : Uri M) :
    (doMonitorAdd uri s).Balanced ∧ (doMonitorAdd uri s).askedFor = s.askedFor := by
  obtain ⟨looked, alive, connections, monitors⟩ := balanced.lookup uri
  obtain ⟨pool, alive⟩ := Option.isSome_iff_exists.mp alive
  rw [doMonitorAdd]
  dsimp only
  constructor
  · refine Tables.Accounts.balanced (Tables.Accounts.update looked alive
      (f := fun pool => { pool with numMonitors := pool.numMonitors + 1 }) rfl rfl ?_ ?_ id)
      (congrArg (List.map (·.2)) Tables.connectionPools_updatePool) Tables.connectionPoolTimeout_updatePool
    · show pool.numMonitors + 1 = _
      rw [looked.monitored _ pool alive, List.count_cons_self, monitors]
      rfl
    · intro q other
      rw [List.count_cons_of_ne (Ne.symm other), monitors]
  · exact Tables.askedFor_updatePool.trans (Tables.askedFor_congr connections)

theorem Tables.Balanced.monitorCancel (balanced : s.Balanced) (added : p ∈ s.monitors) :
    (doMonitorCancel p s).Balanced ∧ (doMonitorCancel p s).askedFor = s.askedFor := by
  obtain ⟨pool, alive⟩ := Option.isSome_iff_exists.mp (balanced.watched p added)
  rw [doMonitorCancel]
  constructor
  · have positive := List.count_pos_iff.mpr added
    have updated : Tables.Accounts (s.connectionPools.map (·.2)) true
        { s.updatePool p (fun pool => { pool with numMonitors := pool.numMonitors - 1 }) with
          monitors := s.monitors.erase p } := by
      apply Tables.Accounts.update balanced alive rfl rfl
      · show pool.numMonitors - 1 = _
        rw [balanced.monitored p pool alive, List.count_erase_self]
        omega
      · intro q other
        exact List.count_erase_of_ne other
      · exact fun _ => rfl
    exact Tables.Accounts.balanced (show Tables.Accounts _ true _ from { updated with })
      (congrArg (List.map (·.2)) Tables.connectionPools_updatePool) rfl
  · exact Tables.askedFor_updatePool

end GnomeVfs.Ftp
