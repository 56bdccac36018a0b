import GnomeVfs.FtpOperations

/- Connections are acquired and released by any number of callers, pools are monitored and reaped, and
the accounts are right whenever the lock is free. -/
namespace GnomeVfs.Ftp

open Interaction Transition

variable {M α : Type}

/-- The conversation comes to its end, whatever the server does. -/
def Ends (x : Conversation M α) : Prop :=
  Action.Maintains (W := Unit) (fun _ _ _ _ => True) (fun _ _ => True) (fun _ _ => False) (fun _ _ => True) x

theorem Ends.bind {β : Type} {x : Conversation M β} {f : β → Conversation M α} (first : Ends x)
    (second : ∀ b, Ends (f b)) : Ends (x >>= f) := Action.Maintains.bind first second

theorem Ends.ite {c : Prop} [Decidable c] {x y : Conversation M α} (first : Ends x) (second : Ends y) :
    Ends (if c then x else y) := Action.Maintains.ite first second

theorem ends_pure (a : α) : Ends (pure a : Conversation M α) := Action.maintains_pure a

theorem ends_get : Ends (get : Conversation M (Connection M)) := Action.maintains_get

theorem ends_modify (f : Connection M → Connection M) : Ends (modify f : Conversation M PUnit) :=
  Action.maintains_modify fun _ _ _ => trivial

theorem ends_ask (r : ControlReq) : Ends (ask r : Conversation M r.Resp) := fun _ _ _ => ⟨trivial, fun _ _ _ => trivial⟩

theorem ends_getResponse (phase : Phase) : Ends (getResponse phase : Conversation M VfsResult) := by
  rw [getResponse]
  apply Ends.bind (ends_ask _)
  intro answer
  cases answer with
  | error failure => exact ends_pure _
  | ok response => exact Ends.bind (ends_modify _) fun _ => Ends.bind ends_get fun _ => ends_pure _

theorem ends_doBasicCommand (phase : Phase) (command : Bytes) :
    Ends (doBasicCommand phase command : Conversation M VfsResult) :=
  Ends.bind (ends_ask _) fun _ => Ends.ite (ends_pure _) (ends_getResponse phase)

theorem ends_ftpLogin (proxied : Bool) (user password : Bytes) :
    Ends (ftpLogin proxied user password : Conversation M VfsResult) :=
  Ends.bind ends_get fun _ => Ends.bind (ends_doBasicCommand _ _) fun _ => Ends.bind ends_get fun _ =>
    Ends.bind ends_get fun _ => Ends.ite (ends_doBasicCommand _ _) (ends_pure _)

theorem ends_setUp (serverType : Option Bytes) : Ends (setUp serverType : Conversation M (Option Bytes)) := by
  have toggled : Ends (toggleWinntIntoUnixMode : Conversation M VfsResult) :=
    Ends.bind (ends_doBasicCommand _ _) fun _ => Ends.bind ends_get fun _ =>
      Ends.ite (ends_doBasicCommand _ _) (ends_pure _)
  have known : ∀ serverType : Option Bytes, Ends (do
      if serverType.any fun name => name.take 10 = ascii "Windows_NT" then
        let _ ← toggleWinntIntoUnixMode
      modify fun conn => { conn with serverType := serverType }
      return serverType : Conversation M (Option Bytes)) := by
    intro serverType
    have rest : Ends (do
        modify fun conn => { conn with serverType := serverType }
        return serverType : Conversation M (Option Bytes)) := Ends.bind (ends_modify _) fun _ => ends_pure _
    exact Ends.ite (Ends.bind toggled fun _ => rest) rest
  apply Ends.bind (ends_doBasicCommand _ _)
  intro _
  cases serverType with
  | some name => exact Ends.bind (ends_pure _) known
  | none =>
    apply Ends.bind (ends_doBasicCommand _ _)
    intro _
    apply Ends.bind ends_get
    exact fun _ => Ends.bind (ends_pure _) known

section Locked

/-- What the others can do, of whom `w` says for which pool they ask. While a connection is asked for,
they leave it alone. -/
def others (w : Nat → Option Nat) : (r : MethodReq M) → r.Resp → (Nat → Option Nat) → Prop
  | .callback c _ s, answer, w' =>
    answer.2.Balanced ∧ w' c = none ∧ answer.2.askedFor = Function.update w' c (s.askedFor c)
  | _, _, w' => w' = w

/-- The lock is only given up when the accounts are right, and with a connection to be asked for. -/
def balancedDemand (w : Nat → Option Nat) : MethodReq M → Prop
  | .callback c _ s => s.Balanced ∧ w c = none ∧ ∃ p, s.askedFor = Function.update w c (some p)
  | .unlock _ => False
  | _ => True

/-- The fuel may run out. -/
def Exhausted (reason : Stop) (_ : Nat → Option Nat) : Prop := reason = .outOfFuel

/-- The tables while somebody works with a pool. -/
def Working (p : Nat) (s : Tables M) (w : Nat → Option Nat) : Prop :=
  s.Balanced ∧ (s.pool p).isSome ∧ s.askedFor = w

/-- The tables while somebody works with a connection. -/
def Holding (place : Place) (c p : Nat) (s : Tables M) (w : Nat → Option Nat) : Prop :=
  Working p s w ∧ ∃ entry, s.connections[c]? = some entry ∧ entry.pool = p ∧ entry.place = place

abbrev Building (c p : Nat) (s : Tables M) (w : Nat → Option Nat) : Prop := Holding .building c p s w

abbrev Builds (c p : Nat) (x : Method M α) : Prop := Action.Maintains others balancedDemand Exhausted (Building c p) x

variable {c p : Nat} {s : Tables M} {w : Nat → Option Nat}

theorem Working.note (working : Working p s w) {f : Pool → Pool}
    (numConnections : ∀ pool, (f pool).numConnections = pool.numConnections)
    (spare : ∀ pool, (f pool).spareConnections = pool.spareConnections)
    (numMonitors : ∀ pool, (f pool).numMonitors = pool.numMonitors) : Working p (s.updatePool p f) w := by
  obtain ⟨balanced, alive, asked⟩ := working
  obtain ⟨pool, alive⟩ := Option.isSome_iff_exists.mp alive
  refine ⟨balanced.note alive (numConnections _) (spare _) (numMonitors _), ?_, Tables.askedFor_updatePool.trans asked⟩
  rw [Tables.pool_updatePool alive, if_pos rfl]
  rfl

theorem Building.note (holds : Building c p s w) {f : Pool → Pool}
    (numConnections : ∀ pool, (f pool).numConnections = pool.numConnections)
    (spare : ∀ pool, (f pool).spareConnections = pool.spareConnections)
    (numMonitors : ∀ pool, (f pool).numMonitors = pool.numMonitors) : Building c p (s.updatePool p f) w := by
  obtain ⟨working, entry, here, own, building⟩ := holds
  exact ⟨working.note numConnections spare numMonitors, entry, by rw [Tables.connections_updatePool, here], own, building⟩

theorem builds_note (f : Pool → Pool) (numConnections : ∀ pool, (f pool).numConnections = pool.numConnections)
    (spare : ∀ pool, (f pool).spareConnections = pool.spareConnections)
    (numMonitors : ∀ pool, (f pool).numMonitors = pool.numMonitors) :
    Builds c p (modify fun s : Tables M => s.updatePool p f) :=
  Action.maintains_modify fun _ _ holds => Building.note holds numConnections spare numMonitors

theorem Holding.amend {place : Place} (holds : Holding place c p s w) (unasked : place ≠ .asking) {e : Entry M → Entry M}
    (pool : ∀ entry, (e entry).pool = entry.pool) (stays : ∀ entry, (e entry).place = entry.place) :
    Holding place c p (s.updateConnection c e) w := by
  obtain ⟨⟨balanced, alive, asked⟩, entry, here, own, there⟩ := holds
  refine ⟨⟨balanced.amend here (pool entry) (stays entry), alive, ?_⟩, e entry, ?_, ?_, ?_⟩
  · rw [Tables.askedFor_updateConnection_of_ne here (by rw [there]; exact unasked) (by rw [stays, there]; exact unasked),
      asked]
  · rw [Tables.connections_updateConnection here, if_pos rfl]
  · rw [pool, own]
  · rw [stays, there]

theorem builds_amend (e : Entry M → Entry M) (pool : ∀ entry, (e entry).pool = entry.pool)
    (place : ∀ entry, (e entry).place = entry.place) :
    Builds c p (modify fun s : Tables M => s.updateConnection c e) :=
  Action.maintains_modify fun _ _ holds => Holding.amend holds (by decide) pool place

theorem safe_onConnection {x : Conversation M α} (ends : Ends x) {entry : Entry M} (here : s.connections[c]? = some entry)
    {Q : α → Tables M → (Nat → Option Nat) → Prop}
    (returned : ∀ a record, Q a (s.updateConnection c fun entry => { entry with record := record }) w) :
    Action.safe others balancedDemand (onConnection c x) s Q Exhausted w := by
  rw [Action.safe, onConnection, here]
  apply Prog.safe_bind.mpr
  have spoken : (x entry.record).safe (fun (_ : Unit) (r : ControlReq) (_ : r.Resp) (_ : Unit) => True) (fun _ _ => True)
    (fun _ _ => True) (fun _ _ => False) () := ends entry.record () trivial
  refine Prog.safe_via (fun _ : Unit => w) ?_ ?_ ?_ ?_ spoken
  · intro _ r _
    trivial
  · intro _ r a w' _ same
    exact ⟨(), same, trivial⟩
  · rintro ⟨a, record⟩ _ _
    exact returned a record
  · intro _ _ never
    exact never.elim

theorem builds_onConnection {x : Conversation M α} (ends : Ends x) : Builds c p (onConnection c x) := by
  intro s w holds
  obtain ⟨entry, here, -⟩ := holds.2
  exact safe_onConnection ends here fun _ _ => Holding.amend holds (by decide) (fun _ => rfl) fun _ => rfl

theorem safe_readPool {pool : Pool} (alive : s.pool p = some pool) {Q : Pool → Tables M → (Nat → Option Nat) → Prop} :
    Action.safe others balancedDemand (readPool p) s Q Exhausted w ↔ Q pool s w := by
  rw [readPool, Action.safe_bind, Action.safe_get, alive]
  exact Action.safe_pure

theorem builds_readPool : Builds c p (readPool p : Method M Pool) := by
  intro s w holds
  obtain ⟨pool, alive⟩ := Option.isSome_iff_exists.mp holds.1.2.1
  exact (safe_readPool alive).mpr holds

/-- The pool is pinned while the lock is not held. -/
theorem builds_unlocked (question : Callback) : Builds c p (unlocked c question : Method M question.Resp) := by
  rintro s w ⟨⟨balanced, alive, asked⟩, entry, here, own, building⟩
  obtain ⟨pool, alive⟩ := Option.isSome_iff_exists.mp alive
  have free : w c = none := by
    rw [← asked]
    exact Tables.askedFor_eq_none here (by rw [building]; decide)
  have pinned : (s.move c .asking 1).askedFor = Function.update w c (some p) := by
    rw [Tables.askedFor_move here, asked, if_pos rfl, own]
  rw [unlocked, Action.safe_bind, Action.safe_modify]
  refine ⟨⟨?_, free, p, pinned⟩, ?_⟩
  · exact balanced.move here (by rw [own]; exact alive) (by rw [building]; decide) (by decide) (by rw [building]; rfl)
  rintro ⟨answer, s'⟩ w' ⟨balanced', free', asked'⟩
  have asked' : s'.askedFor = Function.update w' c (some p) := by
    rw [asked', pinned, Function.update_self]
  have still : s'.askedFor c = some p := by rw [asked', Function.update_self]
  rw [Tables.askedFor] at still
  obtain ⟨entry', here', place'⟩ := Option.bind_eq_some_iff.mp still
  split at place'
  · rename_i asking
    cases place'
    have housed := balanced'.housed c entry' here' (by rw [asking]; rfl)
    obtain ⟨pool', alive'⟩ := Option.isSome_iff_exists.mp housed
    refine ⟨⟨balanced'.move here' alive' (by rw [asking]; decide) (by decide) (by rw [asking]; rfl), ?_, ?_⟩, ?_⟩
    · rw [Tables.pool_move here' alive', if_pos rfl]
      rfl
    · rw [Tables.askedFor_move here', asked', Function.update_idem, if_neg (by decide), ← free']
      exact Function.update_eq_self c w'
    · refine ⟨{ entry' with place := .building }, ?_, rfl, rfl⟩
      rw [Tables.connections_move here', if_pos rfl]
  · cases place'

variable (proxy : Proxy) (uri : Uri M)

theorem Builds.bind {β : Type} {x : Method M β} {f : β → Method M α} (first : Builds c p x)
    (second : ∀ b, Builds c p (f b)) : Builds c p (x >>= f) := Action.Maintains.bind first second

theorem Builds.ite {t : Prop} [Decidable t] {x y : Method M α} (first : Builds c p x) (second : Builds c p y) :
    Builds c p (if t then x else y) := Action.Maintains.ite first second

theorem builds_pure (a : α) : Builds c p (pure a : Method M α) := Action.maintains_pure a

theorem builds_tryConnection : Builds c p (tryConnection proxy p uri c) := by
  apply Builds.bind builds_readPool
  intro pool
  dsimp only
  split
  · exact builds_pure _
  · apply Builds.bind
    · rintro s w holds
      refine ⟨trivial, ?_⟩
      rintro answer w' rfl
      exact holds
    · intro answer
      cases answer with
      | error failure => exact builds_pure _
      | ok ip =>
        exact Builds.bind (builds_note _ (fun _ => rfl) (fun _ => rfl) fun _ => rfl) fun _ =>
          Builds.bind (builds_amend _ (fun _ => rfl) fun _ => rfl) fun _ => builds_onConnection (ends_getResponse _)

theorem builds_tryLogin (user password : Option Bytes) : Builds c p (tryLogin proxy p uri c user password) := by
  have login : Builds c p (do
      let result ← onConnection c (ftpLogin proxy.isSome (user.getD (ascii "(null)")) (password.getD (ascii "(null)")))
      if result ≠ .ok then modify fun s => s.updateConnection c fun entry => { entry with socket := false }
      return result : Method M VfsResult) := by
    apply Builds.bind (builds_onConnection (ends_ftpLogin _ _ _))
    intro result
    exact Builds.ite (Builds.bind (builds_amend _ (fun _ => rfl) fun _ => rfl) fun _ => builds_pure _) (builds_pure _)
  apply Builds.bind Action.maintains_get
  intro s
  apply Builds.ite
  · exact Builds.bind (builds_pure _) fun _ => Builds.ite (builds_pure _) login
  · exact Builds.bind (builds_tryConnection proxy uri) fun _ => Builds.ite (builds_pure _) login

theorem builds_askUser (fuel : Nat) (first : Login) : Builds c p (askUser proxy p uri c fuel first) := by
  apply Action.Maintains.loop (fun _ _ _ => rfl)
  intro login
  have again : ∀ (answer : UserAnswer) (login : Login), Builds c p (tryAnswer proxy p uri c answer login) := by
    intro answer login
    have tried : Builds c p (do
        let result ← tryLogin proxy p uri c login.user login.password
        if result = .ok then return .finish (.ok login)
        if result ≠ .loginFailed ∨ answer = .unhandled then return .finish (.error result)
        return .again login : Method M (Step Login (Except VfsResult Login))) :=
      Builds.bind (builds_tryLogin proxy uri _ _) fun _ =>
        Builds.ite (builds_pure _) (Builds.ite (builds_pure _) (builds_pure _))
    exact Builds.bind (builds_amend _ (fun _ => rfl) fun _ => rfl) fun _ => tried
  apply Builds.bind (builds_unlocked _)
  intro answer
  cases answer with
  | unhandled => exact again _ _
  | aborted => exact builds_pure _
  | given user password save => exact again _ _

theorem builds_logIn (fuel : Nat) : Builds c p (logIn proxy p uri c fuel) := by
  apply Builds.bind builds_readPool
  intro pool
  apply Builds.ite
  · exact Builds.bind (builds_tryLogin proxy uri _ _) fun _ => builds_pure _
  · apply Builds.ite
    · apply Builds.bind (builds_unlocked _)
      intro answer
      cases answer with
      | none => exact builds_askUser proxy uri fuel _
      | some known =>
        apply Builds.bind (builds_tryLogin proxy uri _ _)
        exact fun _ => Builds.ite (builds_pure _) (builds_askUser proxy uri fuel _)
    · exact Builds.bind (builds_tryLogin proxy uri _ _) fun _ => builds_pure _

/-- A connection has been acquired, where there is one. -/
def Acquired (s : Tables M) (acquired : Option Nat) : Prop :=
  ∀ c, acquired = some c → ∃ entry, s.connections[c]? = some entry ∧ entry.place = .used

theorem Working.begin (working : Working p s w) : Building s.connections.length p
    { s with connections := s.connections ++ [⟨p, .building, false, .new uri⟩] } w := by
  obtain ⟨balanced, alive, asked⟩ := working
  refine ⟨⟨?_, alive, ?_⟩, ⟨p, .building, false, .new uri⟩, List.getElem?_concat_length, rfl, rfl⟩
  · exact Tables.Accounts.begin balanced rfl
  · rw [← asked]
    funext d
    rw [Tables.askedFor, Tables.askedFor]
    show ((s.connections ++ [_])[d]?).bind _ = _
    rw [List.getElem?_append]
    split
    · rfl
    · rename_i outside
      rw [List.getElem?_eq_none (l := s.connections) (by omega)]
      by_cases last : d - s.connections.length = 0
      · rw [last]
        rfl
      · rw [List.getElem?_eq_none (by rw [List.length_singleton]; omega)]

theorem Building.abandon (holds : Building c p s w) :
    Working p (s.updateConnection c fun entry => { entry with place := .gone }) w := by
  obtain ⟨⟨balanced, alive, asked⟩, entry, here, own, building⟩ := holds
  refine ⟨?_, alive, ?_⟩
  · exact Tables.Accounts.amend balanced here rfl (by rw [building]; rfl) (by simp [building])
  · rw [Tables.askedFor_updateConnection_of_ne here (by rw [building]; decide) (by simp), asked]

theorem Building.finish (holds : Building c p s w) :
    Working p (s.move c .used 1) w ∧ Acquired (s.move c .used 1) (some c) := by
  obtain ⟨⟨balanced, alive, asked⟩, entry, here, own, building⟩ := holds
  obtain ⟨pool, there⟩ := Option.isSome_iff_exists.mp alive
  have there : s.pool entry.pool = some pool := by rw [own]; exact there
  refine ⟨⟨?_, ?_, ?_⟩, ?_⟩
  · exact balanced.move here there (by rw [building]; decide) (by decide) (by rw [building]; rfl)
  · rw [Tables.pool_move here there, if_pos own.symm]
    rfl
  · rw [Tables.askedFor_move_of_ne here (by rw [building]; decide) (by decide), asked]
  · intro d same
    cases same
    exact ⟨_, by rw [Tables.connections_move here, if_pos rfl], rfl⟩

/-- Every way out of `ftp_connection_create` leaves the accounts right. -/
theorem safe_ftpConnectionCreate (fuel : Nat) (working : Working p s w) :
    Action.safe others balancedDemand (ftpConnectionCreate proxy fuel p uri) s
      (fun r s w => Working p s w ∧ Acquired s r.2) Exhausted w := by
  let c := s.connections.length
  have abandoned : ∀ (result : VfsResult) s w, Building c p s w → Action.safe others balancedDemand (do
      modify fun s => s.updateConnection c fun entry => { entry with place := .gone }
      return (result, none) : Method M (VfsResult × Option Nat)) s
        (fun r s w => Working p s w ∧ Acquired s r.2) Exhausted w := by
    intro result s w building
    refine ⟨building.abandon, ?_⟩
    intro d never
    cases never
  have finished : ∀ s w, Building c p s w → Action.safe others balancedDemand (do
      modify fun s => s.move c .used 1
      return (.ok, some c) : Method M (VfsResult × Option Nat)) s
        (fun r s w => Working p s w ∧ Acquired s r.2) Exhausted w := by
    intro s w building
    exact building.finish
  have prepared : ∀ (pool : Pool) s w, Building c p s w → Action.safe others balancedDemand (do
      let serverType ← onConnection c (setUp pool.serverType)
      modify fun s => s.updatePool p fun pool => { pool with serverType := serverType }
      modify fun s => s.move c .used 1
      return (.ok, some c) : Method M (VfsResult × Option Nat)) s
        (fun r s w => Working p s w ∧ Acquired s r.2) Exhausted w := by
    intro pool s w building
    apply Action.Maintains.followed (builds_onConnection (ends_setUp _)) building
    intro serverType s w building
    rw [Action.safe_bind, Action.safe_modify]
    exact finished _ w (building.note (fun _ => rfl) (fun _ => rfl) fun _ => rfl)
  have known : ∀ (login : Login) s w, Building c p s w → Action.safe others balancedDemand
      (setUpConnection p c login : Method M (VfsResult × Option Nat)) s
        (fun r s w => Working p s w ∧ Acquired s r.2) Exhausted w := by
    intro login s w building
    unfold setUpConnection
    apply Action.Maintains.followed builds_readPool building
    intro pool s w building
    rw [Action.safe_ite]
    refine ⟨fun _ => ?_, fun _ => prepared pool s w building⟩
    rw [Action.safe_bind, Action.safe_modify]
    exact prepared pool _ w (building.note (fun _ => rfl) (fun _ => rfl) fun _ => rfl)
  rw [ftpConnectionCreate, Action.safe_bind, Action.safe_get, Action.safe_bind, Action.safe_modify]
  apply Action.Maintains.followed (builds_tryConnection proxy uri) (working.begin uri)
  intro result s w building
  rw [Action.safe_ite]
  refine ⟨fun _ => abandoned result s w building, fun _ => ?_⟩
  apply Action.Maintains.followed (builds_logIn proxy uri fuel) building
  intro login s w building
  cases login with
  | error result => exact abandoned result s w building
  | ok login =>
    rw [Action.safe_ite]
    refine ⟨fun _ => ?_, fun _ => known login s w building⟩
    exact Action.Maintains.followed (builds_unlocked _) building fun _ => known login

theorem Holding.acquired (holds : Holding .used c p s w) : Acquired s (some c) := by
  obtain ⟨-, entry, here, -, used⟩ := holds
  intro d same
  cases same
  exact ⟨entry, here, used⟩

theorem Holding.destroy (holds : Holding .used c p s w) : Working p (ftpConnectionDestroy c s) w := by
  obtain ⟨⟨balanced, alive, asked⟩, entry, here, own, used⟩ := holds
  obtain ⟨pool, there⟩ := Option.isSome_iff_exists.mp alive
  have there : s.pool entry.pool = some pool := by rw [own]; exact there
  refine ⟨?_, ?_, ?_⟩
  · exact balanced.move here there (by rw [used]; decide) (by decide) (by rw [used]; rfl)
  · rw [ftpConnectionDestroy, Tables.pool_move here there, if_pos own.symm]
    rfl
  · rw [ftpConnectionDestroy, Tables.askedFor_move_of_ne here (by rw [used]; decide) (by decide), asked]

/-- Every way through `ftp_connection_acquire` leaves the accounts right. -/
theorem safe_ftpConnectionAcquire (fuel : Nat) (balanced : s.Balanced) (asked : s.askedFor = w) :
    Action.safe others balancedDemand (ftpConnectionAcquire proxy fuel uri) s
      (fun r s w => (s.Balanced ∧ s.askedFor = w) ∧ Acquired s r.2) Exhausted w := by
  obtain ⟨looked, alive, connections, -⟩ := balanced.lookup uri
  have working : Working (ftpConnectionPoolLookup uri s).1 (ftpConnectionPoolLookup uri s).2 w :=
    ⟨looked, alive, by rw [Tables.askedFor_congr connections, asked]⟩
  rw [ftpConnectionAcquire, Action.safe_bind, Action.safe_modifyGet]
  generalize (ftpConnectionPoolLookup uri s).1 = p at working
  generalize (ftpConnectionPoolLookup uri s).2 = s at working
  have timed : ∀ (done : VfsResult × Option Nat) s w, Working p s w ∧ Acquired s done.2 →
      Action.safe others balancedDemand (do
        let now ← clock
        modify fun s => s.updatePool p fun pool => { pool with lastUse := now }
        return done : Method M (VfsResult × Option Nat)) s
          (fun r s w => (s.Balanced ∧ s.askedFor = w) ∧ Acquired s r.2) Exhausted w := by
    rintro done s w ⟨working, acquired⟩
    refine ⟨trivial, ?_⟩
    rintro now w' rfl
    obtain ⟨noted, -, asked⟩ : Working p (s.updatePool p fun pool => { pool with lastUse := now }) w' :=
      working.note (fun _ => rfl) (fun _ => rfl) fun _ => rfl
    refine ⟨⟨noted, asked⟩, ?_⟩
    intro c same
    obtain ⟨entry, here, used⟩ := acquired c same
    exact ⟨entry, by rw [Tables.connections_updatePool, here], used⟩
  have created : ∀ s w, Working p s w → Action.safe others balancedDemand (do
      let done ← ftpConnectionCreate proxy fuel p uri
      let now ← clock
      modify fun s => s.updatePool p fun pool => { pool with lastUse := now }
      return done : Method M (VfsResult × Option Nat)) s
        (fun r s w => (s.Balanced ∧ s.askedFor = w) ∧ Acquired s r.2) Exhausted w := by
    intro s w working
    rw [Action.safe_bind]
    exact Action.safe_mono (safe_ftpConnectionCreate proxy uri fuel working) timed fun _ _ => id
  obtain ⟨pool, alive⟩ := Option.isSome_iff_exists.mp working.2.1
  rw [Action.safe_bind, safe_readPool alive]
  dsimp only
  cases spares : pool.spareConnections with
  | nil => exact created s w working
  | cons c rest =>
    obtain ⟨balanced, -, asked⟩ := working
    obtain ⟨entry, here, own, spare, taken⟩ := Tables.Accounts.take balanced alive spares
    have there : (s.move c .used 0).pool p = some { pool with numConnections := pool.numConnections + 0 } := by
      rw [Tables.pool_move here (by rw [own]; exact alive), if_pos own.symm]
    have using₀ : Holding .used c p ((s.move c .used 0).updatePool p fun pool =>
        { pool with spareConnections := rest }) w := by
      refine ⟨⟨?_, ?_, ?_⟩, { entry with place := .used }, ?_, own, rfl⟩
      · refine taken.balanced ?_ ?_
        · rw [Tables.connectionPools_updatePool, Tables.connectionPools_move]
        · rw [Tables.connectionPoolTimeout_updatePool, Tables.connectionPoolTimeout_move]
      · rw [Tables.pool_updatePool there, if_pos rfl]
        rfl
      · rw [Tables.askedFor_updatePool, Tables.askedFor_move_of_ne here (by rw [spare]; decide) (by decide), asked]
      · rw [Tables.connections_updatePool, Tables.connections_move here, if_pos rfl]
    rw [Action.safe_bind, Action.safe_modify, Action.safe_bind, Action.safe_modify, Action.safe_bind]
    have using₁ := using₀.amend (by decide) (e := fun entry =>
      { entry with record := { entry.record with uri := uri, offset := 0 } }) (fun _ => rfl) fun _ => rfl
    obtain ⟨working₁, entry₁, here₁, own₁, used₁⟩ := using₁
    apply safe_onConnection (ends_doBasicCommand _ _) here₁
    intro result record
    have using₂ := Holding.amend ⟨working₁, entry₁, here₁, own₁, used₁⟩ (by decide) (e := fun entry =>
      { entry with record := record }) (fun _ => rfl) fun _ => rfl
    rw [Action.safe_ite]
    constructor
    · intro _
      rw [Action.safe_bind, Action.safe_modify]
      exact created _ w using₂.destroy
    · intro _
      rw [Action.safe_bind, Action.safe_pure]
      apply timed
      exact ⟨using₂.1, using₂.acquired⟩

end Locked

end GnomeVfs.Ftp
