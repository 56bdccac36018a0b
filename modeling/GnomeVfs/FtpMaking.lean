import GnomeVfs.FtpStep

/- A connection is made, and nothing is to come on it when it is there. -/
namespace GnomeVfs.Ftp

open Interaction

variable {M α β : Type}

section Making

variable {c p : Nat} {H H' : Entry M → Channel → Prop} {kept : List (Claim M)} {s : Tables M} {v : View M}

/-- A connection of a pool is made, or is in use, while the lock is held. -/
structure Making (c p : Nat) (place : Place) (H : Entry M → Channel → Prop) (kept : List (Claim M)) (s : Tables M)
    (v : View M) : Prop where
  owns : Owns (⟨c, place, H⟩ :: kept) s v
  alive : (s.pool p).isSome
  within : ∃ entry, s.connections[c]? = some entry ∧ entry.pool = p

variable {place : Place}

theorem Making.weaken (making : Making c p place H kept s v) (less : ∀ entry ch, H entry ch → H' entry ch) :
    Making c p place H' kept s v := ⟨making.owns.weaken less, making.alive, making.within⟩

theorem Making.note (making : Making c p place H kept s v) {f : Pool → Pool}
    (numConnections : ∀ pool, (f pool).numConnections = pool.numConnections)
    (spare : ∀ pool, (f pool).spareConnections = pool.spareConnections)
    (numMonitors : ∀ pool, (f pool).numMonitors = pool.numMonitors) : Making c p place H kept (s.updatePool p f) v := by
  obtain ⟨owns, alive, entry, here, own⟩ := making
  obtain ⟨pool, alive⟩ := Option.isSome_iff_exists.mp alive
  refine ⟨owns.of_connections ?_ Tables.connections_updatePool, ?_, entry, by rw [Tables.connections_updatePool, here], own⟩
  · exact owns.sound.balanced.note alive (numConnections _) (spare _) (numMonitors _)
  · rw [Tables.pool_updatePool alive, if_pos rfl]
    rfl

theorem Making.amend (making : Making c p place H kept s v) {e : Entry M → Entry M}
    (pool : ∀ entry, (e entry).pool = entry.pool) (stays : ∀ entry, (e entry).place = entry.place)
    (holds : ∀ entry, s.connections[c]? = some entry → v.wires.interrupted = false → H entry (v.wires.channels c) →
      H' (e entry) (v.wires.channels c)) : Making c p place H' kept (s.updateConnection c e) v := by
  obtain ⟨owns, alive, entry, here, own⟩ := making
  refine ⟨owns.amend pool stays holds, alive, e entry, ?_, (pool entry).trans own⟩
  rw [Tables.connections_updateConnection here, if_pos rfl]

variable {K : Bool → Prop} {P : Connection M → Channel → Prop} {Q : α → Connection M → Channel → Prop}
  {x : Conversation M α}

theorem making_onConnection (talks : Talks P x Q) :
    Performs (Making c p place (fun entry ch => K entry.socket ∧ P entry.record ch) kept) (onConnection c x)
      fun a => Making c p place (fun entry ch => K entry.socket ∧ Q a entry.record ch) kept := by
  rintro s v ⟨owns, alive, entry, here, own⟩
  refine Action.safe_mono (owns_onConnection talks owns) ?_ fun _ _ => id
  rintro a s' v' ⟨owns', record, rfl⟩
  refine ⟨owns', alive, { entry with record := record }, ?_, own⟩
  rw [Tables.connections_updateConnection here, if_pos rfl]

theorem safe_readPool_view {pool : Pool} (alive : s.pool p = some pool) {Q : Pool → Tables M → View M → Prop} :
    Action.safe View.env View.demand (readPool p) s Q (fun _ _ => True) v ↔ Q pool s v := by
  rw [readPool, Action.safe_bind, Action.safe_get, alive]
  exact Action.safe_pure

theorem making_readPool : Performs (Making c p place H kept) (readPool p) fun _ => Making c p place H kept := by
  intro s v making
  obtain ⟨pool, alive⟩ := Option.isSome_iff_exists.mp making.alive
  exact (safe_readPool_view alive).mpr making

/-- A connection goes to another place where somebody works with it. -/
theorem Making.move (making : Making c p place H kept s v) {place' : Place} {delta : Int} (was : place ≠ .spare)
    (becomes : place' ≠ .spare) (busy : place'.busy = true) (counts : delta = place'.weight - place.weight)
    (stable : ∀ entry ch, H entry ch → H' { entry with place := place' } ch) :
    Making c p place' H' kept (s.move c place' delta) v := by
  obtain ⟨owns, alive, entry, here, own⟩ := making
  obtain ⟨same, found, there, -, held⟩ := owns.entry
  rw [here] at found
  cases found
  obtain ⟨pool, alive⟩ := Option.isSome_iff_exists.mp alive
  have alive : s.pool entry.pool = some pool := by rw [own]; exact alive
  have entries : ∀ d, (s.move c place' delta).connections[d]? = _ := fun d => Tables.connections_move here
  refine ⟨owns.change ⟨?_, fun _ _ => rfl, id⟩ ⟨?_, ?_, owns.sound.stray⟩ (by rw [entries, if_pos rfl]) rfl busy
    fun fine => stable _ _ (held fine), ?_, { entry with place := place' }, by rw [entries, if_pos rfl], own⟩
  · intro d other
    rw [entries, if_neg other]
  · exact owns.sound.balanced.move here alive (by rw [there]; exact was) becomes (by rw [there]; exact counts)
  · rintro fine d ⟨other, found, isSpare⟩
    rw [entries] at found
    split at found
    · cases found
      exact absurd isSpare becomes
    · exact owns.sound.spares fine d ⟨other, found, isSpare⟩
  · rw [Tables.pool_move here alive, if_pos own.symm]
    rfl

/-- The user is asked while others may work with the pools. -/
theorem making_unlocked (question : Callback)
    (stable : ∀ (entry : Entry M) (place : Place) ch, H entry ch → H { entry with place := place } ch) :
    Performs (Making c p .building H kept) (unlocked c question) fun _ => Making c p .building H kept := by
  intro s v making
  rw [unlocked, Action.safe_bind, Action.safe_modify]
  have pinned : Making c p .asking H kept (s.move c .asking 1) v :=
    making.move (by decide) (by decide) rfl rfl fun entry ch => stable entry .asking ch
  refine ⟨pinned.owns.demand, ?_⟩
  rintro ⟨answer, s'⟩ v' resumes
  have owns' : Owns (⟨c, .asking, H⟩ :: kept) s' v' := pinned.owns.resume resumes
  obtain ⟨entry, here, own⟩ := pinned.within
  obtain ⟨same, -, -⟩ := resumes.same c ((pinned.owns.own_iff c).mpr List.mem_cons_self)
  have here' : s'.connections[c]? = some entry := same.trans here
  obtain ⟨other, found, asking, -⟩ := owns'.entry
  rw [here'] at found
  cases found
  have alive : (s'.pool p).isSome := by
    rw [← own]
    exact owns'.sound.balanced.housed c entry here' (by rw [asking]; rfl)
  have again : Making c p .asking H kept s' v' := ⟨owns', alive, entry, here', own⟩
  exact again.move (by decide) (by decide) rfl rfl fun entry ch => stable entry .building ch

end Making

section LogIn

variable {c p : Nat} {kept : List (Claim M)} (proxy : Proxy) (uri : Uri M)

/-- A connection that is made, with what is said of its socket, its record and its channel. -/
abbrev makes (c p : Nat) (kept : List (Claim M)) (H : Bool → Connection M → Channel → Prop) : Tables M → View M → Prop :=
  Making c p .building (fun entry ch => H entry.socket entry.record ch) kept

/-- There is a socket, on which one can log in. -/
def Connected (socket : Bool) (conn : Connection M) (ch : Channel) : Prop :=
  socket = true ∧ InStep conn ch ∧ NotAsked conn

/-- What a connection attempt gives. -/
def Tried (result : VfsResult) (socket : Bool) (conn : Connection M) (ch : Channel) : Prop :=
  (result = .ok → Connected socket conn ch) ∧ (result = .loginFailed → socket = true → InStep conn ch)

theorem performs_connect {C : Prop} (host : Bytes) (port : Nat) :
    Performs (makes c p kept fun socket _ _ => socket = false ∧ C)
      (fun s => .ask (.connect c host port) fun answer => .done (answer, s) : Method M (Except Socket.Failure Bytes))
      fun answer => makes c p kept fun socket _ ch => socket = false ∧ C ∧ ∀ ip, answer = .ok ip → ch = .greeting := by
  rintro s v ⟨owns, alive, entry, here, own⟩
  refine ⟨owns.apart c List.mem_cons_self, ?_⟩
  rintro answer v' ⟨theirs, choice, served⟩
  have same : v' = ⟨v.theirs, v'.wires⟩ := by rw [← theirs]
  rw [same]
  obtain ⟨found, here', there, busy, held⟩ := owns.entry
  cases answer with
  | error failure =>
    have wires : v.wires = v'.wires := Option.some.inj served
    rw [← wires]
    refine ⟨owns.weaken ?_, alive, entry, here, own⟩
    exact fun _ _ holds => ⟨holds.1, holds.2, fun _ never => by cases never⟩
  | ok ip =>
    have wires : { v.wires with channels := Function.update v.wires.channels c .greeting } = v'.wires :=
      Option.some.inj served
    rw [← wires]
    refine ⟨owns.change ⟨fun _ _ => rfl, fun d other => Function.update_of_ne other _ _, id⟩
      ⟨owns.sound.balanced, ?_, owns.sound.stray⟩ here' there busy ?_, alive, entry, here, own⟩
    · intro fine d spare
      have other : d ≠ c := by
        intro same
        obtain ⟨idle, found', isSpare⟩ := spare
        rw [same, here'] at found'
        cases found'
        rw [there] at isSpare
        cases isSpare
      show (Function.update v.wires.channels c .greeting d).owed = []
      rw [Function.update_of_ne other]
      exact owns.sound.spares fine d spare
    · intro fine
      refine ⟨(held fine).1, (held fine).2, fun _ _ => ?_⟩
      exact Function.update_self _ _ _

theorem performs_tryConnection {C : Prop} :
    Performs (makes c p kept fun socket _ _ => socket = false ∧ C) (tryConnection proxy p uri c)
      fun result => makes c p kept fun socket conn ch => C ∧ Tried result socket conn ch := by
  refine Performs.bind making_readPool fun pool => ?_
  dsimp only
  split
  · apply performs_pure
    intro s v making
    exact making.weaken fun _ _ holds => ⟨holds.2, fun never => (by cases never), fun never => (by cases never)⟩
  · refine (performs_connect _ _).bind fun answer => ?_
    cases answer with
    | error failure =>
      apply performs_pure
      intro s v making
      refine making.weaken fun _ _ holds => ⟨holds.2.1, fun never => absurd never failure.2, ?_⟩
      intro _ never
      rw [holds.1] at never
      cases never
    | ok ip =>
      apply Performs.bind (R := fun _ => makes c p kept fun socket _ ch => socket = false ∧ C ∧ ch = .greeting)
      · apply performs_modify
        intro s v making
        exact (making.weaken fun _ _ holds => ⟨holds.1, holds.2.1, holds.2.2 ip rfl⟩).note (fun _ => rfl)
          (fun _ => rfl) fun _ => rfl
      intro _
      apply Performs.bind (R := fun _ => makes c p kept fun socket _ ch => (socket = true ∧ C) ∧ ch = .greeting)
      · apply performs_modify
        intro s v making
        exact making.amend (fun _ => rfl) (fun _ => rfl) fun _ _ _ holds => ⟨⟨rfl, holds.2.1⟩, holds.2.2⟩
      intro _
      apply (making_onConnection (K := fun socket => socket = true ∧ C) talks_greeting).mono (fun _ _ => id)
      intro result s v making
      refine making.weaken fun _ _ holds => ⟨holds.1.2, fun fine => ⟨holds.1.1, holds.2.1 fine⟩, ?_⟩
      exact fun loginFailed _ => holds.2.2 loginFailed

/-- One can log in on the socket, if there is one; `known` is whether there is to be one. -/
def Ready (known : Bool) (socket : Bool) (conn : Connection M) (ch : Channel) : Prop :=
  (known = true → socket = true) ∧ (socket = true → InStep conn ch ∧ NotAsked conn)

/-- What an attempt to log in gives. -/
def LoggedIn (known : Bool) (result : VfsResult) (socket : Bool) (conn : Connection M) (ch : Channel) : Prop :=
  (result = .ok → InStep conn ch) ∧ (result = .loginFailed → socket = true → InStep conn ch) ∧
    (known = true → result ≠ .ok → socket = false)

theorem performs_tryLogin (known : Bool) (user password : Option Bytes) :
    Performs (makes c p kept (Ready known)) (tryLogin proxy p uri c user password)
      fun result => makes c p kept (LoggedIn known result) := by
  have login : Performs (makes c p kept Connected) (do
      let result ← onConnection c (ftpLogin proxy.isSome (user.getD (ascii "(null)")) (password.getD (ascii "(null)")))
      if result ≠ .ok then modify fun s => s.updateConnection c fun entry => { entry with socket := false }
      return result : Method M VfsResult) fun result => makes c p kept (LoggedIn known result) := by
    refine (making_onConnection (K := fun socket => socket = true) (talks_ftpLogin _ _ _)).bind fun result => ?_
    apply Performs.ite
    · intro failing
      apply Performs.bind (R := fun _ => makes c p kept fun socket _ _ => socket = false)
      · apply performs_modify
        intro s v making
        exact making.amend (fun _ => rfl) (fun _ => rfl) fun _ _ _ _ => rfl
      · intro _
        apply performs_pure
        intro s v making
        refine making.weaken fun _ _ socket => ⟨fun fine => absurd fine failing, ?_, fun _ _ => socket⟩
        intro _ never
        rw [socket] at never
        cases never
    · intro fine
      have fine := not_not.mp fine
      apply performs_pure
      intro s v making
      exact making.weaken fun _ _ holds => ⟨fun _ => holds.2 fine, fun _ _ => holds.2 fine, fun _ failing => absurd fine failing⟩
  intro s v making
  rw [tryLogin, Action.safe_bind, Action.safe_get]
  obtain ⟨entry, here, -, -, -⟩ := making.owns.entry
  have socket_eq : (s.connections[c]?).any (·.socket) = entry.socket := by rw [here]; rfl
  rw [socket_eq, Action.safe_ite]
  have narrowed : ∀ {b : Bool}, entry.socket = b → Making c p .building
      (fun entry ch => entry.socket = b ∧ Ready known entry.socket entry.record ch) kept s v := by
    rintro b rfl
    obtain ⟨owns, alive, within⟩ := making
    refine ⟨⟨owns.sound, owns.framed, owns.distinct, owns.busy, owns.apart, ?_⟩, alive, within⟩
    intro claim member
    rcases List.mem_cons.mp member with rfl | later
    · obtain ⟨other, found, there, holds⟩ := owns.claims _ List.mem_cons_self
      rw [here] at found
      cases found
      exact ⟨entry, here, there, fun fine => ⟨rfl, holds fine⟩⟩
    · exact owns.claims claim (List.mem_cons_of_mem _ later)
  constructor
  · intro socket
    have connected : makes c p kept Connected s v := by
      refine (narrowed socket).weaken fun other ch holds => ⟨holds.1, holds.2.2 holds.1⟩
    rw [Action.safe_bind, Action.safe_pure, Action.safe_ite]
    exact ⟨fun never => absurd rfl never, fun _ => login s v connected⟩
  · intro socket
    have socket : entry.socket = false := by simpa using socket
    have unconnected : makes c p kept (fun socket _ _ => socket = false ∧ known ≠ true) s v := by
      refine (narrowed socket).weaken fun other ch holds => ⟨holds.1, fun isKnown => ?_⟩
      have never := holds.2.1 isKnown
      rw [holds.1] at never
      cases never
    rw [Action.safe_bind]
    refine Action.safe_mono (performs_tryConnection proxy uri s v unconnected) ?_ fun _ _ => id
    intro result s v tried
    rw [Action.safe_ite]
    constructor
    · intro failing
      refine tried.weaken fun _ _ holds => ⟨fun fine => absurd fine failing, holds.2.2, ?_⟩
      exact fun isKnown => absurd isKnown holds.1
    · intro fine
      exact login s v (tried.weaken fun _ _ holds => holds.2.1 (not_not.mp fine))

/-- A login that has succeeded leaves nothing to come. -/
def Entered (login : Except VfsResult Login) (_ : Bool) (conn : Connection M) (ch : Channel) : Prop :=
  login.isOk = true → InStep conn ch

theorem makes_unlocked {H : Bool → Connection M → Channel → Prop} (question : Callback) :
    Performs (makes c p kept H) (unlocked c question) fun _ => makes c p kept H :=
  making_unlocked question fun _ _ _ => id

theorem performs_askUser (fuel : Nat) (first : Login) :
    Performs (makes c p kept fun socket conn ch => socket = true → InStep conn ch) (askUser proxy p uri c fuel first)
      fun login => makes c p kept (Entered login) := by
  refine Performs.loop (I := fun _ => makes c p kept fun socket conn ch => socket = true → InStep conn ch) ?_ fuel first
  intro login
  have again : ∀ (answer : UserAnswer) (login : Login),
      Performs (makes c p kept fun socket conn ch => socket = true → InStep conn ch) (tryAnswer proxy p uri c answer login)
          (Rounded (fun _ => makes c p kept fun socket conn ch => socket = true → InStep conn ch)
            fun login => makes c p kept (Entered login)) := by
    intro answer login
    apply Performs.bind (R := fun _ => makes c p kept (Ready false))
    · apply performs_modify
      intro s v making
      refine making.amend (fun _ => rfl) (fun _ => rfl) fun _ _ _ holds => ⟨fun never => (by cases never), ?_⟩
      exact fun socket => ⟨holds socket, fun both => absurd both.1 (show ¬ (300 : Int) ≤ -1 by decide)⟩
    intro _
    refine (performs_tryLogin proxy uri false _ _).bind fun result => ?_
    apply Performs.ite
    · exact fun fine => performs_pure fun _ _ making => making.weaken fun _ _ holds _ => holds.1 fine
    intro _
    apply Performs.ite
    · exact fun _ => performs_pure fun _ _ making => making.weaken fun _ _ _ never => by cases never
    · intro goesOn
      have failed : result = .loginFailed := by
        by_contra other
        exact goesOn (Or.inl other)
      exact performs_pure fun _ _ making => making.weaken fun _ _ holds => holds.2.1 failed
  refine (makes_unlocked _).bind fun answer => ?_
  cases answer with
  | unhandled => exact again .unhandled ⟨some (ascii "anonymous"), some (ascii "nobody@gnome.org"), login.save⟩
  | aborted => exact performs_pure fun _ _ making => making.weaken fun _ _ _ never => by cases never
  | given user password save => exact again (.given user password save) ⟨some user, some password, save⟩

theorem Connected.ready {socket : Bool} {conn : Connection M} {ch : Channel} (connected : Connected socket conn ch) :
    Ready true socket conn ch := ⟨fun _ => connected.1, fun _ => connected.2⟩

theorem performs_logIn (fuel : Nat) : Performs (makes c p kept Connected) (logIn proxy p uri c fuel)
    fun login => makes c p kept (Entered login) := by
  have tried : ∀ user password, Performs (makes c p kept Connected) (tryLogin proxy p uri c user password)
      fun result => makes c p kept (LoggedIn true result) := fun user password =>
    (performs_tryLogin proxy uri true user password).mono
      (fun _ _ making => making.weaken fun _ _ connected => connected.ready) fun _ _ _ => id
  have settled : ∀ (result : VfsResult) (login : Login), Performs (makes c p kept (LoggedIn true result))
      (pure (if result = .ok then Except.ok login else Except.error result) : Method M (Except VfsResult Login))
      fun login => makes c p kept (Entered login) := by
    intro result login
    apply performs_pure
    intro s v making
    by_cases fine : result = .ok
    · rw [if_pos fine]
      exact making.weaken fun _ _ holds _ => holds.1 fine
    · rw [if_neg fine]
      exact making.weaken fun _ _ _ never => by cases never
  refine Performs.bind making_readPool fun pool => ?_
  apply Performs.ite
  · exact fun _ => (tried _ _).bind fun result => settled result _
  intro _
  apply Performs.ite
  · intro _
    refine (makes_unlocked _).bind fun answer => ?_
    cases answer with
    | none =>
      exact (performs_askUser proxy uri fuel _).mono
        (fun _ _ making => making.weaken fun _ _ connected _ => connected.2.1) fun _ _ _ => id
    | some known =>
      refine (tried _ _).bind fun result => ?_
      apply Performs.ite
      · exact fun fine => performs_pure fun _ _ making => making.weaken fun _ _ holds _ => holds.1 fine
      · intro failing
        refine (performs_askUser proxy uri fuel _).mono ?_ fun _ _ _ => id
        intro s v making
        refine making.weaken fun _ _ holds socket => ?_
        rw [holds.2.2 rfl failing] at socket
        cases socket
  · exact fun _ => (tried _ _).bind fun result => settled result _

end LogIn

section Acquire

variable {c p : Nat} {kept : List (Claim M)} (proxy : Proxy) (uri : Uri M) {s : Tables M} {v : View M}

/-- A connection in use, with what is to come on it. -/
abbrev uses (c : Nat) (P : Connection M → Channel → Prop) : Claim M := ⟨c, .used, fun entry ch => P entry.record ch⟩

/-- The connections that are one's own with the one that an operation has given, where it has succeeded. -/
def handed (P : Connection M → Channel → Prop) (kept : List (Claim M)) : VfsResult × Option Nat → List (Claim M)
  | (.ok, some c) => uses c P :: kept
  | _ => kept

@[simp] theorem handed_none (P : Connection M → Channel → Prop) (result : VfsResult) : handed P kept (result, none) = kept := by
  unfold handed
  split
  · rename_i never
    cases never
  · rfl

theorem handed_of_ne {P : Connection M → Channel → Prop} {result : VfsResult} (failing : result ≠ .ok) (conn : Option Nat) :
    handed P kept (result, conn) = kept := by
  unfold handed
  split
  · rename_i same
    cases same
    exact absurd rfl failing
  · rfl

/-- The pool that is worked with is there. -/
def Pooled (p : Nat) (mine : List (Claim M)) (s : Tables M) (v : View M) : Prop := Owns mine s v ∧ (s.pool p).isSome

theorem Pooled.begin (pooled : Pooled p kept s v) (uri : Uri M) :
    makes s.connections.length p kept (fun socket _ _ => socket = false ∧ True)
      { s with connections := s.connections ++ [⟨p, .building, false, .new uri⟩] } v := by
  obtain ⟨owns, alive⟩ := pooled
  have entries : ∀ d, d ≠ s.connections.length → (s.connections ++ [(⟨p, .building, false, .new uri⟩ : Entry M)])[d]? =
      s.connections[d]? := by
    intro d other
    by_cases inside : d < s.connections.length
    · rw [List.getElem?_append_left inside]
    · rw [List.getElem?_eq_none (by rw [List.length_append, List.length_singleton]; omega),
        List.getElem?_eq_none (by omega)]
  have last : (s.connections ++ [(⟨p, .building, false, .new uri⟩ : Entry M)])[s.connections.length]? = some _ :=
    List.getElem?_concat_length
  refine ⟨owns.take ?_ ⟨entries, fun _ _ => rfl, id⟩ ⟨Tables.Accounts.begin owns.sound.balanced rfl, ?_, owns.sound.stray⟩
    last rfl rfl fun _ => ⟨rfl, trivial⟩, alive, _, last, rfl⟩
  · rintro ⟨entry, here, -⟩
    rw [List.getElem?_eq_none (Nat.le_refl _)] at here
    cases here
  · rintro fine d ⟨entry, here, spare⟩
    have other : d ≠ s.connections.length := by
      intro same
      have here : (s.connections ++ [(⟨p, .building, false, .new uri⟩ : Entry M)])[d]? = some entry := here
      rw [same, last] at here
      cases here
      cases spare
    refine owns.sound.spares fine d ⟨entry, ?_, spare⟩
    rw [← entries d other]
    exact here

theorem Making.abandon {H : Entry M → Channel → Prop} (making : Making c p .building H kept s v) :
    Pooled p kept (s.updateConnection c fun entry => { entry with place := .gone }) v := by
  obtain ⟨owns, alive, -⟩ := making
  obtain ⟨entry, here, building, -, -⟩ := owns.entry
  have entries : ∀ d, (s.updateConnection c fun entry => { entry with place := .gone }).connections[d]? = _ := fun d =>
    Tables.connections_updateConnection here
  refine ⟨owns.drop (w := v.wires) ⟨?_, fun _ _ => rfl, id⟩ ⟨?_, ?_, owns.sound.stray⟩ (by rw [entries, if_pos rfl]) rfl, alive⟩
  · intro d other
    rw [entries, if_neg other]
  · exact Tables.Accounts.amend owns.sound.balanced here rfl (by rw [building]; rfl) (by simp [building])
  · rintro fine d ⟨other, found, isSpare⟩
    rw [entries] at found
    split at found
    · cases found
      cases isSpare
    · exact owns.sound.spares fine d ⟨other, found, isSpare⟩

theorem Making.destroy {H : Entry M → Channel → Prop} (making : Making c p .used H kept s v) :
    Pooled p kept (ftpConnectionDestroy c s) v := by
  obtain ⟨owns, alive, entry, here, own⟩ := making
  obtain ⟨same, found, used, -, -⟩ := owns.entry
  rw [here] at found
  cases found
  obtain ⟨pool, alive⟩ := Option.isSome_iff_exists.mp alive
  have alive : s.pool entry.pool = some pool := by rw [own]; exact alive
  have entries : ∀ d, (ftpConnectionDestroy c s).connections[d]? = _ := fun d => Tables.connections_move here
  refine ⟨owns.drop (w := v.wires) ⟨?_, fun _ _ => rfl, id⟩ ⟨?_, ?_, owns.sound.stray⟩ (by rw [entries, if_pos rfl]) rfl, ?_⟩
  · intro d other
    rw [entries, if_neg other]
  · exact owns.sound.balanced.move here alive (by rw [used]; decide) (by decide) (by rw [used]; rfl)
  · rintro fine d ⟨other, found, isSpare⟩
    rw [entries] at found
    split at found
    · cases found
      cases isSpare
    · exact owns.sound.spares fine d ⟨other, found, isSpare⟩
  · rw [ftpConnectionDestroy, Tables.pool_move here alive, if_pos own.symm]
    rfl

/-- What `ftp_connection_create` gives has nothing to come. -/
theorem performs_ftpConnectionCreate (fuel : Nat) : Performs (Pooled p kept) (ftpConnectionCreate proxy fuel p uri)
    fun r => Pooled p (handed InStep kept r) := by
  have abandoned : ∀ (c : Nat) (result : VfsResult) (H : Bool → Connection M → Channel → Prop),
      Performs (makes c p kept H) (do
        modify fun s => s.updateConnection c fun entry => { entry with place := .gone }
        return (result, none) : Method M (VfsResult × Option Nat)) fun r => Pooled p (handed InStep kept r) := by
    intro c result H
    apply Performs.bind (R := fun _ => Pooled p kept)
    · exact performs_modify fun _ _ making => making.abandon
    · intro _
      apply performs_pure
      intro s v pooled
      rw [handed_none]
      exact pooled
  have prepared : ∀ (c : Nat) (pool : Pool), Performs (makes c p kept fun _ conn ch => InStep conn ch) (do
      let serverType ← onConnection c (setUp pool.serverType)
      modify fun s => s.updatePool p fun pool => { pool with serverType := serverType }
      modify fun s => s.move c .used 1
      return (.ok, some c) : Method M (VfsResult × Option Nat)) fun r => Pooled p (handed InStep kept r) := by
    intro c pool
    have set : Performs (makes c p kept fun _ conn ch => InStep conn ch) (onConnection c (setUp pool.serverType))
        fun _ => makes c p kept fun _ conn ch => InStep conn ch :=
      (making_onConnection (K := fun _ => True) (talks_setUp _)).mono
        (fun _ _ making => making.weaken fun _ _ inStep => ⟨trivial, inStep⟩)
        fun _ _ _ making => making.weaken fun _ _ both => both.2
    refine set.bind fun serverType => ?_
    apply Performs.bind (R := fun _ => makes c p kept fun _ conn ch => InStep conn ch)
    · exact performs_modify fun _ _ making => making.note (fun _ => rfl) (fun _ => rfl) fun _ => rfl
    intro _
    apply Performs.bind (R := fun _ => Pooled p (uses c InStep :: kept))
    · apply performs_modify
      intro s v making
      have used : Making c p .used (fun entry ch => InStep entry.record ch) kept (s.move c .used 1) v :=
        making.move (by decide) (by decide) rfl rfl fun _ _ => id
      exact ⟨used.owns, used.alive⟩
    · exact fun _ => performs_pure fun _ _ => id
  have known : ∀ (c : Nat) (login : Login), Performs (makes c p kept fun _ conn ch => InStep conn ch)
      (setUpConnection p c login : Method M (VfsResult × Option Nat)) fun r => Pooled p (handed InStep kept r) := by
    intro c login
    refine Performs.bind making_readPool fun pool => ?_
    apply Performs.ite
    · intro _
      apply Performs.bind (R := fun _ => makes c p kept fun _ conn ch => InStep conn ch)
      · exact performs_modify fun _ _ making => making.note (fun _ => rfl) (fun _ => rfl) fun _ => rfl
      · exact fun _ => prepared c pool
    · exact fun _ => prepared c pool
  intro s v pooled
  rw [ftpConnectionCreate, Action.safe_bind, Action.safe_get, Action.safe_bind, Action.safe_modify, Action.safe_bind]
  refine Action.safe_mono (performs_tryConnection proxy uri _ v (pooled.begin uri)) ?_ fun _ _ => id
  generalize s.connections.length = c
  intro result s v tried
  rw [Action.safe_ite]
  refine ⟨fun _ => abandoned c result _ s v tried, fun fine => ?_⟩
  rw [Action.safe_bind]
  refine Action.safe_mono (performs_logIn proxy uri fuel s v (tried.weaken fun _ _ holds => holds.2.1 (not_not.mp fine)))
    ?_ fun _ _ => id
  intro login s v entered
  cases login with
  | error result => exact abandoned c result _ s v entered
  | ok login =>
    have inStep : makes c p kept (fun _ conn ch => InStep conn ch) s v := entered.weaken fun _ _ holds => holds rfl
    rw [Action.safe_ite]
    refine ⟨fun _ => ?_, fun _ => known c login s v inStep⟩
    rw [Action.safe_bind]
    exact Action.safe_mono (makes_unlocked _ s v inStep) (fun _ => known c login) fun _ _ => id

end Acquire

end GnomeVfs.Ftp
