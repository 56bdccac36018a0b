import GnomeVfs.FtpCallers
import GnomeVfs.FtpUses

/- All operations of the method, called by any number of threads, and the replies that are to come on
the spare connections. -/
namespace GnomeVfs.Ftp

open Interaction Transition

variable {M : Type}

section System

/-- A call of an operation that needs no handle. -/
inductive Call (M : Type) where
  | open (uri : Uri M) (mode : OpenMode)
  | create (uri : Uri M) (mode : OpenMode) (exclusive : Bool) (perm : Nat)
  | openDirectory (uri : Uri M)
  | getFileInfo (uri : Uri M)
  | makeDirectory (uri : Uri M) (perm : Nat)
  | removeDirectory (uri : Uri M)
  | unlink (uri : Uri M)
  | move (oldUri newUri : Uri M) (forceReplace : Bool)

/-- A call on a handle; what `do_read` and `do_write` do to the connection is that its offset moves on. -/
inductive HandleCall where
  | close
  | seek (whence : SeekPosition) (offset : Int)
  | transfer (bytes : Nat)
  deriving DecidableEq

/-- The handle that an operation gives. -/
def given : VfsResult × Option Nat → List Nat
  | (.ok, some c) => [c]
  | _ => []

variable (proxy : Proxy) (lists : Lists) (fuel : Nat)

/-- What is done for a call, and the handles that come of it. -/
def Call.perform : Call M → Method M (List Nat)
  | .open uri mode => do return given (← doOpen proxy fuel uri mode)
  | .create uri mode exclusive perm => do return given (← doCreate proxy fuel uri mode exclusive perm)
  | .openDirectory uri => do
    let _ ← doOpenDirectory proxy fuel uri
    return []
  | .getFileInfo uri => do
    let _ ← doGetFileInfo proxy fuel lists uri
    return []
  | .makeDirectory uri perm => do
    let _ ← doMakeDirectory proxy fuel lists uri perm
    return []
  | .removeDirectory uri => do
    let _ ← doRemoveDirectory proxy fuel uri
    return []
  | .unlink uri => do
    let _ ← doUnlink proxy fuel uri
    return []
  | .move oldUri newUri forceReplace => do
    let _ ← doMove proxy fuel lists oldUri newUri forceReplace
    return []

def HandleCall.perform (c : Nat) : HandleCall → Method M (List Nat)
  | .close => do
    let _ ← doClose c
    return []
  | .seek whence offset => do
    let _ ← doSeek c whence offset
    return [c]
  | .transfer bytes => do
    setRecord c fun conn => { conn with offset := conn.offset + bytes }
    return [c]

abbrev Calling (M : Type) := Prog (MethodReq.Resp (M := M)) Stop (List Nat × Tables M)

/-- What a thread does when it has the lock again, and the answer where it is in a callback. -/
abbrev Waiting (M : Type) := ((question : Callback) → question.Resp) → Tables M → Calling M

inductive Party (M : Type) where
  | handle (c : Nat)
  | thread (next : Waiting M)

/-- The tables, the control connections, and who works with them. -/
structure System (M : Type) where
  tables : Tables M
  wires : Wires
  parties : List (Party M)

def System.new : System M := ⟨.new, ⟨fun _ => ⟨[], none⟩, false, false⟩, []⟩

/-- As far as the lock is held: to the end, or until the lock is given up. -/
def held (answers : Answers M) (choices : Nat → Choice) : Nat → Wires → Calling M →
    Option (Tables M × Wires × List (Party M))
  | _, w, .done r => some (r.2, w, r.1.map .handle)
  | _, _, .stop _ => none
  | _, w, .ask (.callback _ question s) next => some (s, w, [.thread fun answer s => next (answer question, s)])
  | _, w, .ask (.unlock s) next => some (s, w, [.thread fun _ s => next s])
  | n, w, .ask r next => (w.serve (choices n) r (answers n r)).bind fun w =>
    held answers choices (n + 1) w (next (answers n r))

/-- One party goes on, beside those that are left. -/
def System.proceed (s : System M) (left : List (Party M)) (x : Calling M) (answers : Answers M)
    (choices : Nat → Choice) : Option (System M) :=
  (held answers choices 0 s.wires x).map fun (tables, wires, parties) => ⟨tables, wires, left ++ parties⟩

inductive SystemEvent (M : Type) where
  | call (call : Call M) (fuel : Nat) (answers : Answers M) (choices : Nat → Choice)
  | use (i : Nat) (call : HandleCall) (answers : Answers M) (choices : Nat → Choice)
  | resume (i : Nat) (answer : (question : Callback) → question.Resp) (answers : Answers M) (choices : Nat → Choice)
  | monitorAdd (uri : Uri M)
  | monitorCancel (p : Nat)
  | reap (now : Nat → Nat)

def System.step (s : System M) : SystemEvent M → Option (System M)
  | .call call fuel answers choices => s.proceed s.parties (call.perform proxy lists fuel s.tables) answers choices
  | .use i call answers choices =>
    match s.parties[i]? with
    | some (.handle c) => s.proceed (s.parties.eraseIdx i) (call.perform c s.tables) answers choices
    | _ => none
  | .resume i answer answers choices =>
    match s.parties[i]? with
    | some (.thread next) => s.proceed (s.parties.eraseIdx i) (next answer s.tables) answers choices
    | _ => none
  | .monitorAdd uri => some { s with tables := doMonitorAdd uri s.tables }
  | .monitorCancel p => some { s with tables := doMonitorCancel p s.tables }
  | .reap now => some { s with tables := ftpConnectionPoolsReap now s.tables }

/-- A monitor is cancelled once, and the timer fires when it is pending. -/
def System.Allowed (s : System M) : SystemEvent M → Prop
  | .monitorCancel p => p ∈ s.tables.monitors
  | .reap _ => s.tables.connectionPoolTimeout = true
  | _ => True

/-- Nothing is to come on the spare connections, and each reply that has been read was one to the last
command. -/
def System.InStep (s : System M) : Prop :=
  (∀ p pool, s.tables.pool p = some pool → ∀ c ∈ pool.spareConnections, (s.wires.channels c).owed = []) ∧
    s.wires.stray = false

end System

section Views

variable {s t : Tables M} {w w' : Wires} {own : Nat → Prop} {c : Nat}

open Classical in
/-- What others work with, where this is one's own. -/
noncomputable def Tables.viewBut (s : Tables M) (own : Nat → Prop) (w : Wires) : View M :=
  ⟨fun c => if own c then none else (s.connections[c]?).filter fun entry => entry.place.busy, w⟩

theorem Tables.theirs_viewBut (other : ¬ own c) {entry : Entry M} :
    (s.viewBut own w).theirs c = some entry ↔ s.connections[c]? = some entry ∧ entry.place.busy = true := by
  rw [Tables.viewBut]
  dsimp only
  rw [if_neg other]
  exact Option.filter_eq_some_iff

theorem Tables.others_viewBut : (s.viewBut own w).others c ↔ s.Busy c ∧ ¬ own c := by
  by_cases mine : own c
  · rw [View.others, Tables.viewBut]
    dsimp only
    rw [if_pos mine]
    simp [mine]
  · rw [View.others, Option.isSome_iff_exists]
    constructor
    · rintro ⟨entry, theirs⟩
      exact ⟨⟨entry, (Tables.theirs_viewBut mine).mp theirs⟩, mine⟩
    · rintro ⟨⟨entry, busy⟩, -⟩
      exact ⟨entry, (Tables.theirs_viewBut mine).mpr busy⟩

theorem Tables.framed_viewBut : (s.viewBut own w).Framed s := by
  intro c entry theirs
  by_cases mine : own c
  · have other : (s.viewBut own w).others c := by rw [View.others, theirs]; rfl
    exact absurd mine (Tables.others_viewBut.mp other).2
  · exact ((Tables.theirs_viewBut mine).mp theirs).1

theorem Tables.resumes_viewBut (sound : Sound s w) (busy : ∀ c, own c → s.Busy c) :
    Resumes own s w s (s.viewBut own w) := by
  refine ⟨sound, Tables.framed_viewBut, ?_, ?_, id⟩
  · exact fun c mine => ⟨rfl, rfl, fun other => (Tables.others_viewBut.mp other).2 mine⟩
  · intro c
    rw [Tables.others_viewBut]
    constructor
    · intro here
      by_cases mine : own c
      · exact Or.inr mine
      · exact Or.inl ⟨here, mine⟩
    · exact fun either => either.elim And.left (busy c)

end Views

section Parties

/-- What has been done for a call when it ends: the handles have a transfer on them. -/
def Handed (r : List Nat × Tables M) (v : View M) : Prop := Owns (r.1.map fun c => uses c Transferring) r.2 v

/-- What a party works with, and what it may count on there. -/
def Party.Keeps (own : Nat → Prop) (s : Tables M) (w : Wires) : Party M → Prop
  | .handle c => (∀ d, own d ↔ d = c) ∧ ∃ entry, s.connections[c]? = some entry ∧ entry.place = .used ∧
      (w.interrupted = false → Transferring entry.record (w.channels c))
  | .thread next => ∀ answer s' v', Resumes own s w s' v' →
      (next answer s').safe View.env View.demand Handed (fun _ _ => True) v'

/-- Nothing happens to what is one's own. -/
structure Untouched (own : Nat → Prop) (s : Tables M) (w : Wires) (s' : Tables M) (w' : Wires) : Prop where
  entries : ∀ c, own c → s'.connections[c]? = s.connections[c]?
  channels : ∀ c, own c → w'.channels c = w.channels c
  later : w.interrupted = true → w'.interrupted = true

variable {s s' : Tables M} {w w' : Wires} {own : Nat → Prop}

theorem Party.Keeps.of_untouched {party : Party M} (keeps : party.Keeps own s w) (untouched : Untouched own s w s' w') :
    party.Keeps own s' w' := by
  cases party with
  | handle c =>
    obtain ⟨mine, entry, here, used, holds⟩ := keeps
    have own := (mine c).mpr rfl
    refine ⟨mine, entry, by rw [untouched.entries c own, here], used, ?_⟩
    intro fine
    rw [untouched.channels c own]
    apply holds
    cases before : w.interrupted with
    | false => rfl
    | true =>
      rw [untouched.later before] at fine
      cases fine
  | thread next =>
    intro answer s₂ v₂ resumes
    refine keeps answer s₂ v₂ ⟨resumes.sound, resumes.framed, ?_, resumes.busy, ?_⟩
    · intro c mine
      obtain ⟨entries, channels, apart⟩ := resumes.same c mine
      exact ⟨entries.trans (untouched.entries c mine), channels.trans (untouched.channels c mine), apart⟩
    · exact fun interrupted => resumes.later (untouched.later interrupted)

/-- The parties with what is their own. -/
abbrev Owned (M : Type) := List (Party M × (Nat → Prop))

def Owned.Apart (owned : Owned M) : Prop := owned.Pairwise fun a b => ∀ c, a.2 c → ¬ b.2 c

/-- Somebody has the connection. -/
def Owned.Has (owned : Owned M) (c : Nat) : Prop := ∃ party ∈ owned, party.2 c

/-- Only the connection that is asked for changes. -/
theorem Wires.serve_later {choice : Choice} {r : MethodReq M} {a : r.Resp} (served : w.serve choice r a = some w') :
    w.interrupted = true → w'.interrupted = true := by
  cases r with
  | control c request =>
    obtain ⟨u, answered, rfl⟩ := Option.map_eq_some_iff.mp served
    exact Line.answer_later answered
  | connect c host port =>
    cases a with
    | error failure => cases served; exact id
    | ok ip => cases served; exact id
  | clock => cases served; exact id
  | callback c question s => cases served
  | unlock s => cases served

theorem Wires.serve_channels {choice : Choice} {r : MethodReq M} {a : r.Resp} {v : View M} (demands : v.demand r)
    (served : v.wires.serve choice r a = some w') {d : Nat} (other : v.others d) :
    w'.channels d = v.wires.channels d := by
  have apart : ∀ c, ¬ v.others c → d ≠ c := fun c none same => none (same ▸ other)
  cases r with
  | control c request =>
    obtain ⟨u, answered, rfl⟩ := Option.map_eq_some_iff.mp served
    exact Function.update_of_ne (apart c demands.1) _ _
  | connect c host port =>
    cases a with
    | error failure => cases served; rfl
    | ok ip =>
      cases served
      exact Function.update_of_ne (apart c demands) _ _
  | clock => cases served; rfl
  | callback c question s => cases served
  | unlock s => cases served

/-- What has been reached when the lock is free again: nothing has happened to what others work with. -/
structure Left (v : View M) (tables : Tables M) (w : Wires) (owned : Owned M) : Prop where
  sound : Sound tables w
  framed : v.Framed tables
  channels : ∀ c, v.others c → w.channels c = v.wires.channels c
  later : v.wires.interrupted = true → w.interrupted = true
  apart : owned.Apart
  has : ∀ c, owned.Has c ↔ tables.Busy c ∧ ¬ v.others c
  keeps : ∀ party ∈ owned, party.1.Keeps party.2 tables w

theorem Owns.left {v : View M} {handles : List Nat} (owns : Owns (handles.map fun c => uses c Transferring) s v) :
    Left v s v.wires (handles.map fun c => (Party.handle c, (· = c))) := by
  have connections : (handles.map fun c => uses c (Transferring (M := M))).map (·.connection) = handles := by
    rw [List.map_map]
    exact List.map_id handles
  have distinct := owns.distinct
  have busy := owns.busy
  have apart := owns.apart
  rw [connections] at distinct busy apart
  refine ⟨owns.sound, owns.framed, fun _ _ => rfl, id, ?_, ?_, ?_⟩
  · rw [Owned.Apart, List.pairwise_map]
    refine distinct.imp ?_
    intro a b other c first second
    exact other (first.symm.trans second)
  · intro c
    have member : Owned.Has (handles.map fun c => (Party.handle (M := M) c, (· = c))) c ↔ c ∈ handles := by
      constructor
      · rintro ⟨party, inside, mine⟩
        obtain ⟨d, member, rfl⟩ := List.mem_map.mp inside
        have mine : c = d := mine
        rw [mine]
        exact member
      · exact fun inside => ⟨_, List.mem_map_of_mem inside, rfl⟩
    rw [member, busy]
    constructor
    · exact fun inside => ⟨Or.inr inside, apart c inside⟩
    · rintro ⟨other | inside, none⟩
      · exact absurd other none
      · exact inside
  · intro party inside
    obtain ⟨c, member, rfl⟩ := List.mem_map.mp inside
    obtain ⟨entry, here, used, holds⟩ := owns.claims _ (List.mem_map_of_mem member)
    exact ⟨fun _ => Iff.rfl, entry, here, used, holds⟩

/-- A thread that gives the lock up keeps what it works with. -/
theorem left_waiting {v : View M} (demands : Sound s v.wires ∧ v.Framed s) {next : Waiting M}
    (goes : ∀ answer s' v', Resumes (v.Own s) s v.wires s' v' →
      (next answer s').safe View.env View.demand Handed (fun _ _ => True) v') :
    Left v s v.wires [(.thread next, v.Own s)] := by
  refine ⟨demands.1, demands.2, fun _ _ => rfl, id, List.pairwise_singleton _ _, ?_, ?_⟩
  · intro c
    constructor
    · rintro ⟨party, inside, mine⟩
      rw [List.mem_singleton.mp inside] at mine
      exact mine
    · exact fun mine => ⟨_, List.mem_singleton_self _, mine⟩
  · intro party inside
    rw [List.mem_singleton.mp inside]
    exact goes

theorem held_safe (answers : Answers M) (choices : Nat → Choice) {x : Calling M} : ∀ {n : Nat} {v : View M},
    x.safe View.env View.demand Handed (fun _ _ => True) v → ∀ {tables : Tables M} {w : Wires} {parties : List (Party M)},
      held answers choices n v.wires x = some (tables, w, parties) →
        ∃ owned : Owned M, owned.map (·.1) = parties ∧ Left v tables w owned := by
  induction x with
  | done r =>
    intro n v safe tables w parties reached
    cases reached
    refine ⟨_, ?_, Owns.left safe⟩
    rw [List.map_map]
    rfl
  | stop reason =>
    intro n v safe tables w parties reached
    cases reached
  | ask r next ih =>
    intro n v safe tables w parties reached
    have served : ∀ {w₁ : Wires}, v.wires.serve (choices n) r (answers n r) = some w₁ →
        View.env v r (answers n r) ⟨v.theirs, w₁⟩ →
        held answers choices (n + 1) w₁ (next (answers n r)) = some (tables, w, parties) →
        ∃ owned : Owned M, owned.map (·.1) = parties ∧ Left v tables w owned := by
      intro w₁ served could reached
      obtain ⟨owned, same, left⟩ := ih (answers n r) (safe.2 _ ⟨v.theirs, w₁⟩ could) reached
      refine ⟨owned, same, left.sound, left.framed, ?_, ?_, left.apart, left.has, left.keeps⟩
      · exact fun c other => (left.channels c other).trans (Wires.serve_channels safe.1 served other)
      · exact fun interrupted => left.later (Wires.serve_later served interrupted)
    cases r with
    | callback c question s =>
      cases reached
      exact ⟨_, rfl, left_waiting safe.1 fun answer s' v' resumes => safe.2 (answer question, s') v' resumes⟩
    | unlock s =>
      cases reached
      exact ⟨_, rfl, left_waiting safe.1 fun answer s' v' resumes => safe.2 s' v' resumes⟩
    | control c request =>
      obtain ⟨w₁, answered, reached⟩ := Option.bind_eq_some_iff.mp reached
      exact served answered ⟨rfl, choices n, answered⟩ reached
    | connect c host port =>
      obtain ⟨w₁, answered, reached⟩ := Option.bind_eq_some_iff.mp reached
      exact served answered ⟨rfl, choices n, answered⟩ reached
    | clock =>
      obtain ⟨w₁, answered, reached⟩ := Option.bind_eq_some_iff.mp reached
      exact served answered ⟨rfl, choices n, answered⟩ reached

end Parties

section Invariant

/-- The accounts are right, and each connection that somebody works with is one party's own. -/
structure System.Inv (s : System M) (owned : Owned M) : Prop where
  parties : owned.map (·.1) = s.parties
  sound : Sound s.tables s.wires
  busy : ∀ c, s.tables.Busy c ↔ owned.Has c
  apart : owned.Apart
  keeps : ∀ party ∈ owned, party.1.Keeps party.2 s.tables s.wires

theorem Owned.has_append {first second : Owned M} {c : Nat} :
    Owned.Has (first ++ second) c ↔ first.Has c ∨ second.Has c := by
  constructor
  · rintro ⟨party, inside, mine⟩
    exact (List.mem_append.mp inside).imp (fun inside => ⟨party, inside, mine⟩) fun inside => ⟨party, inside, mine⟩
  · rintro (⟨party, inside, mine⟩ | ⟨party, inside, mine⟩)
    · exact ⟨party, List.mem_append_left _ inside, mine⟩
    · exact ⟨party, List.mem_append_right _ inside, mine⟩

variable {s t : System M} {owned left : Owned M} {v : View M}

/-- One party goes on in its view of the others. -/
theorem System.Inv.proceed (apart : left.Apart) (keeps : ∀ party ∈ left, party.1.Keeps party.2 s.tables s.wires)
    (wires : v.wires = s.wires) (framed : v.Framed s.tables) (busy : ∀ c, v.others c → s.tables.Busy c)
    (others : ∀ c, v.others c ↔ left.Has c) {x : Calling M}
    (safe : x.safe View.env View.demand Handed (fun _ _ => True) v) {answers : Answers M} {choices : Nat → Choice}
    (proceeded : s.proceed (left.map (·.1)) x answers choices = some t) : ∃ owned, t.Inv owned := by
  obtain ⟨⟨tables, w, parties⟩, reached, rfl⟩ := Option.map_eq_some_iff.mp proceeded
  rw [← wires] at reached
  obtain ⟨owned, same, went⟩ := held_safe answers choices safe reached
  refine ⟨left ++ owned, ?_, went.sound, ?_, ?_, ?_⟩
  · rw [List.map_append, same]
  · intro c
    rw [Owned.has_append, went.has, ← others]
    constructor
    · intro here
      by_cases other : v.others c
      · exact Or.inl other
      · exact Or.inr ⟨here, other⟩
    · rintro (other | ⟨here, -⟩)
      · obtain ⟨entry, theirs⟩ := Option.isSome_iff_exists.mp other
        obtain ⟨found, before, inUse⟩ := busy c other
        rw [framed c entry theirs] at before
        cases before
        exact ⟨entry, went.framed c entry theirs, inUse⟩
      · exact here
  · refine List.pairwise_append.mpr ⟨apart, went.apart, ?_⟩
    intro a first b second c mine theirs
    exact ((went.has c).mp ⟨b, second, theirs⟩).2 ((others c).mpr ⟨a, first, mine⟩)
  · intro party inside
    rcases List.mem_append.mp inside with before | new
    · have mine : ∀ c, party.2 c → v.others c := fun c mine => (others c).mpr ⟨party, before, mine⟩
      refine (keeps party before).of_untouched ⟨?_, ?_, ?_⟩
      · intro c own
        obtain ⟨entry, theirs⟩ := Option.isSome_iff_exists.mp (mine c own)
        rw [went.framed c entry theirs, framed c entry theirs]
      · intro c own
        rw [went.channels c (mine c own), wires]
      · rw [← wires]
        exact went.later
    · exact went.keeps party new

theorem System.Inv.split (inv : s.Inv owned) {i : Nat} {party : Party M} (here : s.parties[i]? = some party) :
    ∃ own, owned.Perm ((party, own) :: owned.eraseIdx i) ∧ (owned.eraseIdx i).map (·.1) = s.parties.eraseIdx i := by
  rw [← inv.parties, List.getElem?_map] at here
  obtain ⟨⟨same, own⟩, found, rfl⟩ := Option.map_eq_some_iff.mp here
  refine ⟨own, ?_, ?_⟩
  · obtain ⟨inside, found⟩ := List.getElem?_eq_some_iff.mp found
    rw [← found]
    exact (List.getElem_cons_eraseIdx_perm inside).symm
  · rw [← inv.parties, List.eraseIdx_map]

theorem Owned.Apart.perm (apart : owned.Apart) (same : owned.Perm left) : left.Apart := by
  refine (same.pairwise_iff ?_).mp apart
  exact fun disjoint c second first => disjoint c first second

theorem Owned.has_perm (same : owned.Perm left) (c : Nat) : owned.Has c ↔ left.Has c := by
  constructor
  · exact fun ⟨party, inside, mine⟩ => ⟨party, same.mem_iff.mp inside, mine⟩
  · exact fun ⟨party, inside, mine⟩ => ⟨party, same.mem_iff.mpr inside, mine⟩

theorem System.Inv.turn (inv : s.Inv owned) {party : Party M} {own : Nat → Prop}
    (same : owned.Perm ((party, own) :: left)) {x : Calling M}
    (safe : x.safe View.env View.demand Handed (fun _ _ => True) (s.tables.viewBut own s.wires)) {answers : Answers M}
    {choices : Nat → Choice} (proceeded : s.proceed (left.map (·.1)) x answers choices = some t) :
    ∃ owned, t.Inv owned := by
  have apart := List.pairwise_cons.mp (inv.apart.perm same)
  refine System.Inv.proceed apart.2 ?_ rfl Tables.framed_viewBut ?_ ?_ safe proceeded
  · exact fun other inside => inv.keeps other (same.mem_iff.mpr (List.mem_cons_of_mem _ inside))
  · exact fun c other => (Tables.others_viewBut.mp other).1
  · intro c
    rw [Tables.others_viewBut, inv.busy, Owned.has_perm same]
    constructor
    · rintro ⟨⟨other, inside, mine⟩, none⟩
      rcases List.mem_cons.mp inside with rfl | later
      · exact absurd mine none
      · exact ⟨other, later, mine⟩
    · rintro ⟨other, inside, mine⟩
      exact ⟨⟨other, List.mem_cons_of_mem _ inside, mine⟩, fun own => apart.1 other inside c own mine⟩

theorem handed_given (P : Connection M → Channel → Prop) (r : VfsResult × Option Nat) :
    handed P [] r = (given r).map fun c => uses c P := by
  obtain ⟨result, c⟩ := r
  cases result <;> cases c <;> rfl

variable (proxy : Proxy) (lists : Lists)

theorem Call.performs (call : Call M) (fuel : Nat) : Performs (Owns []) (call.perform proxy lists fuel)
    fun handles => Owns (handles.map fun c => uses c Transferring) := by
  have opened : ∀ x : Method M (VfsResult × Option Nat), Performs (Owns []) x (fun r => Owns (handed Transferring [] r)) →
      Performs (Owns []) (do return given (← x)) fun handles => Owns (handles.map fun c => uses c Transferring) := by
    intro x performs
    refine performs.bind fun r => performs_pure fun s v owns => ?_
    rw [← handed_given]
    exact owns
  have ended : ∀ {α : Type} (x : Method M α), Performs (Owns []) x (fun _ => Owns []) →
      Performs (Owns []) (do
        let _ ← x
        return []) fun handles => Owns (handles.map fun c => uses c Transferring) := fun x performs =>
    performs.bind fun _ => performs_pure fun _ _ => id
  cases call with
  | «open» uri mode => exact opened _ (performs_doOpen proxy fuel uri mode)
  | create uri mode exclusive perm => exact opened _ (performs_doCreate proxy fuel uri mode exclusive perm)
  | openDirectory uri => exact ended _ (performs_doOpenDirectory proxy fuel uri)
  | getFileInfo uri => exact ended _ (performs_doGetFileInfo proxy fuel uri lists)
  | makeDirectory uri perm => exact ended _ (performs_doMakeDirectory proxy fuel uri lists perm)
  | removeDirectory uri => exact ended _ (performs_doRemoveDirectory proxy fuel uri)
  | unlink uri => exact ended _ (performs_doUnlink proxy fuel uri)
  | move oldUri newUri forceReplace => exact ended _ (performs_doMove proxy fuel oldUri lists newUri forceReplace)

theorem HandleCall.performs (call : HandleCall) (c : Nat) :
    Performs (Owns [uses c (Transferring (M := M))]) (call.perform c)
      fun handles => Owns (handles.map fun c => uses c Transferring) := by
  cases call with
  | close => exact performs_doClose.bind fun _ => performs_pure fun _ _ => id
  | seek whence offset => exact (performs_doSeek whence offset).bind fun _ => performs_pure fun _ _ => id
  | transfer bytes =>
    refine Performs.bind (performs_setRecord (R := Transferring) fun _ _ => id) fun _ => ?_
    exact performs_pure fun _ _ => id

/-- Nothing happens to the connections that somebody works with. -/
theorem System.Inv.aside (inv : s.Inv owned) {tables : Tables M} (balanced : tables.Balanced)
    (retires : s.tables.Retires tables) : ∃ owned, System.Inv { s with tables := tables } owned := by
  have busy : ∀ c, tables.Busy c ↔ s.tables.Busy c := by
    intro c
    rw [Tables.Busy, Tables.Busy]
    rcases retires c with same | ⟨entry, here, spare, gone⟩
    · rw [same]
    · rw [here, gone]
      simp [spare, Place.busy]
  have entries : ∀ c, s.tables.Busy c → tables.connections[c]? = s.tables.connections[c]? := by
    rintro c ⟨entry, here, inUse⟩
    rcases retires c with same | ⟨other, found, spare, -⟩
    · exact same
    · rw [here] at found
      cases found
      rw [spare] at inUse
      cases inUse
  refine ⟨owned, inv.parties, ⟨balanced, ?_, inv.sound.stray⟩, fun c => (busy c).trans (inv.busy c), inv.apart, ?_⟩
  · rintro fine c ⟨entry, here, spare⟩
    rcases retires c with same | ⟨other, found, -, gone⟩
    · rw [same] at here
      exact inv.sound.spares fine c ⟨entry, here, spare⟩
    · rw [gone] at here
      cases here
      cases spare
  · intro party inside
    refine (inv.keeps party inside).of_untouched ⟨?_, fun _ _ => rfl, id⟩
    exact fun c own => entries c ((inv.busy c).mpr ⟨party, inside, own⟩)

theorem System.Inv.step (inv : s.Inv owned) {e : SystemEvent M} (allowed : s.Allowed e)
    (stepped : s.step proxy lists e = some t) : ∃ owned, t.Inv owned := by
  cases e with
  | call call fuel answers choices =>
    have none : Owns [] s.tables (s.tables.viewBut (fun _ => False) s.wires) := by
      have nowhere : ∀ c, False → s.tables.Busy c := fun _ never => never.elim
      have resumes := Tables.resumes_viewBut inv.sound nowhere
      refine ⟨resumes.sound, resumes.framed, List.nodup_nil, ?_, ?_, ?_⟩
      · intro c
        rw [resumes.busy]
        simp
      · intro c never
        cases never
      · intro claim never
        cases never
    rw [System.step, ← inv.parties] at stepped
    refine System.Inv.proceed inv.apart inv.keeps rfl Tables.framed_viewBut ?_ ?_ (call.performs proxy lists fuel _ _ none)
      stepped
    · exact fun c other => (Tables.others_viewBut.mp other).1
    · intro c
      rw [Tables.others_viewBut, inv.busy]
      exact and_iff_left id
  | use i call answers choices =>
    rw [System.step] at stepped
    split at stepped
    · rename_i c here
      obtain ⟨own, same, parties⟩ := inv.split here
      rw [← parties] at stepped
      obtain ⟨mine, entry, found, used, holds⟩ := inv.keeps _ (same.mem_iff.mpr List.mem_cons_self)
      have mine : ∀ d, own d ↔ d = c := mine
      have busy : ∀ d, own d → s.tables.Busy d := fun d own =>
        (inv.busy d).mpr ⟨_, same.mem_iff.mpr List.mem_cons_self, own⟩
      have resumes := Tables.resumes_viewBut inv.sound busy
      have owns : Owns [uses c Transferring] s.tables (s.tables.viewBut own s.wires) := by
        refine ⟨resumes.sound, resumes.framed, List.nodup_singleton c, ?_, ?_, ?_⟩
        · intro d
          rw [resumes.busy, mine]
          simp
        · intro d inside
          exact (resumes.same d ((mine d).mpr (List.mem_singleton.mp inside))).2.2
        · intro claim inside
          rw [List.mem_singleton.mp inside]
          exact ⟨entry, found, used, holds⟩
      exact inv.turn same (call.performs c _ _ owns) stepped
    · cases stepped
  | resume i answer answers choices =>
    rw [System.step] at stepped
    split at stepped
    · rename_i next here
      obtain ⟨own, same, parties⟩ := inv.split here
      rw [← parties] at stepped
      have keeps := inv.keeps _ (same.mem_iff.mpr List.mem_cons_self)
      have busy : ∀ d, own d → s.tables.Busy d := fun d own =>
        (inv.busy d).mpr ⟨_, same.mem_iff.mpr List.mem_cons_self, own⟩
      exact inv.turn same (keeps answer _ _ (Tables.resumes_viewBut inv.sound busy)) stepped
    · cases stepped
  | monitorAdd uri =>
    cases stepped
    obtain ⟨-, -, connections, -⟩ := inv.sound.balanced.lookup uri
    refine inv.aside (inv.sound.balanced.monitorAdd uri).1 (Tables.retires_of_connections ?_)
    exact Tables.connections_updatePool.trans connections
  | monitorCancel p =>
    cases stepped
    refine inv.aside (inv.sound.balanced.monitorCancel allowed).1 (Tables.retires_of_connections ?_)
    exact Tables.connections_updatePool
  | reap now =>
    cases stepped
    obtain ⟨balanced, retires⟩ := inv.sound.balanced.reap now
    exact inv.aside balanced retires

theorem System.Inv.new : (System.new : System M).Inv [] := by
  refine ⟨rfl, ⟨Tables.Balanced.new, fun _ _ _ => rfl, fun _ => rfl⟩, ?_, List.Pairwise.nil, ?_⟩
  · intro c
    constructor
    · rintro ⟨entry, never, -⟩
      cases never
    · rintro ⟨party, never, -⟩
      cases never
  · intro party never
    cases never

/-- The root of a host, for which no password is asked. -/
def anonymous : Uri Unit :=
  .toplevel ⟨some [chrSlash], none, ascii "ftp", some ()⟩ ⟨some [104], 0, some (ascii "anonymous"), none⟩

end Invariant

end GnomeVfs.Ftp
