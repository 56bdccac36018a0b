import Mathlib.Algebra.Group.Nat.Defs
import Mathlib.Logic.Function.Basic
import GnomeVfs.Transition

/- The files and directories that the daemon has open for its clients. Each connection has a thread of its
own; the tables are shared, and each is used under its lock. -/
namespace GnomeVfs.Daemon

open Transition

/-- The two tables are alike. -/
inductive Kind where
  | file | directory
  deriving DecidableEq

/-- `FileHandle` or `DirectoryHandle`: whether `vfs_handle` is set, and whether the handle has been freed.
Of what has been opened for it, how often it has been passed to a close function, whether it has been used
after that, and whether its client has asked to close it. -/
structure Handle where
  id : Nat
  lastConnection : Nat
  vfsHandle : Bool
  freed : Bool
  closes : Nat
  misused : Bool
  asked : Bool
  deriving DecidableEq

/-- A table by ids, and the handles by their addresses. -/
structure Table where
  handles : Nat → Option Handle
  ids : Nat → Option Nat
  nextId : Nat

/-- `file_handle_new` or `directory_handle_new`. -/
def handleNew (connection id : Nat) : Handle := ⟨id, connection, true, false, 0, false, false⟩

/-- The handle's `vfs_handle` is passed to an operation, which may be the close function. -/
def Handle.call (h : Handle) (closing : Bool) : Handle :=
  { h with misused := h.misused || h.freed || h.closes ≠ 0, closes := if closing then h.closes + 1 else h.closes }

/-- `file_handle_free` or `directory_handle_free`. -/
def Handle.free (h : Handle) : Handle :=
  if h.vfsHandle then { h.call true with vfsHandle := false, freed := true } else { h with freed := true }

/-- What a removal from the table does to one handle. -/
def Table.free (t : Table) (address : Nat) : Table :=
  { t with handles := Function.update t.handles address ((t.handles address).map (·.free)) }

/-- `add_file_handle` or `add_directory_handle`. An entry that has the id is replaced, and freed. -/
def Table.addHandle (t : Table) (connection address : Nat) : Table :=
  let id := t.nextId
  let t := match t.ids id with
    | some old => t.free old
    | none => t
  { handles := Function.update t.handles address (some (handleNew connection id))
    ids := Function.update t.ids id (some address)
    nextId := (id + 1) % 2 ^ 32 }

/-- `get_file_handle` or `get_directory_handle`, where the id is known. -/
def Table.getHandle (t : Table) (connection address : Nat) : Table :=
  { t with
    handles := Function.update t.handles address
      ((t.handles address).map fun h => { h with lastConnection := connection }) }

/-- `remove_file_handle` or `remove_directory_handle`. -/
def Table.removeHandle (t : Table) (h : Handle) : Table :=
  match t.ids h.id with
  | some address => { t.free address with ids := Function.update t.ids h.id none }
  | none => t

/-- The removal of every handle that a connection was the last to use, in `connection_destroy`. -/
def Table.destroy (t : Table) (connection : Nat) : Table :=
  { t with
    handles := fun address => (t.handles address).map fun h =>
      if t.ids h.id = some address ∧ h.lastConnection = connection then h.free else h
    ids := fun id => (t.ids id).filter fun address =>
      (t.handles address).all fun h => h.lastConnection ≠ connection }

/-- What a connection's thread is doing. -/
inductive Thread where
  | idle
  /-- It has got a handle, and is about to call an operation on it, or to close it. -/
  | calling (kind : Kind) (address : Nat) (closing : Bool)
  /-- It has closed a handle, and is about to take it out of the table. -/
  | removing (kind : Kind) (address : Nat)
  /-- It is being destroyed, and has gone through the directories. -/
  | leaving
  | gone
  deriving DecidableEq

structure State where
  tables : Kind → Table
  threads : Nat → Thread

def State.new : State := ⟨fun _ => ⟨fun _ => none, fun _ => none, 1⟩, fun _ => .idle⟩

inductive Event where
  /-- An open or create has succeeded. -/
  | opened (connection : Nat) (kind : Kind) (address : Nat)
  /-- A request on a handle: read, write, seek, tell, truncate or read_directory, or close. -/
  | request (connection : Nat) (kind : Kind) (id : Nat) (closing : Bool)
  | perform (connection : Nat) (ok : Bool)
  | remove (connection : Nat)
  /-- The two parts of `connection_destroy`. -/
  | leave (connection : Nat)
  | left (connection : Nat)

def State.setTable (s : State) (kind : Kind) (t : Table) : State := { s with tables := Function.update s.tables kind t }

def State.setThread (s : State) (connection : Nat) (thread : Thread) : State :=
  { s with threads := Function.update s.threads connection thread }

/-- An operation has returned. One that has closed the file or directory clears `vfs_handle`, unless it
has failed. -/
def Handle.performed (h : Handle) (closing ok : Bool) : Handle :=
  let h := if h.vfsHandle then h.call closing else h
  { h with asked := h.asked || closing, vfsHandle := h.vfsHandle && !(closing && ok) }

def State.step (s : State) : Event → Option State
  | .opened connection kind address =>
    if s.threads connection = .idle then
      some (s.setTable kind ((s.tables kind).addHandle connection address))
    else none
  | .request connection kind id closing =>
    if s.threads connection = .idle then
      match (s.tables kind).ids id with
      | some address =>
        some ((s.setTable kind ((s.tables kind).getHandle connection address)).setThread connection
          (.calling kind address closing))
      | none => some s
    else none
  | .perform connection ok =>
    match s.threads connection with
    | .calling kind address closing =>
      let t := s.tables kind
      some ((s.setTable kind { t with
        handles := Function.update t.handles address ((t.handles address).map (·.performed closing ok)) }).setThread
          connection (if closing && ok then .removing kind address else .idle))
    | _ => none
  | .remove connection =>
    match s.threads connection with
    | .removing kind address =>
      ((s.tables kind).handles address).map fun h =>
        (s.setTable kind ((s.tables kind).removeHandle h)).setThread connection .idle
    | _ => none
  | .leave connection =>
    if s.threads connection = .idle then
      some ((s.setTable .directory ((s.tables .directory).destroy connection)).setThread connection .leaving)
    else none
  | .left connection =>
    if s.threads connection = .leaving then
      some ((s.setTable .file ((s.tables .file).destroy connection)).setThread connection .gone)
    else none

/-- The handle that a thread is at work on. -/
def Thread.held : Thread → Option (Kind × Nat)
  | .calling kind address _ => some (kind, address)
  | .removing kind address => some (kind, address)
  | .idle | .leaving | .gone => none

/-- The memory allocator gives out what is not in use, and requests on one handle are made one after
another. -/
def State.allowed (s : State) : Event → Prop
  | .opened _ kind address => (s.tables kind).handles address = none
  | .request _ kind id _ => ∀ address, (s.tables kind).ids id = some address →
      ∀ connection, (s.threads connection).held ≠ some (kind, address)
  | _ => True

/-- No close fails, and no id is given out again while a request is at work on the handle that has it. -/
def State.careful (s : State) : Event → Prop
  | .opened _ kind _ => ∀ address, (s.tables kind).ids (s.tables kind).nextId = some address →
      ∀ connection, (s.threads connection).held ≠ some (kind, address)
  | .perform connection ok => ∀ kind address, s.threads connection = .calling kind address true → ok = true
  | _ => True

section Invariant

/-- Open, and not at work for a close. -/
structure Handle.Live (h : Handle) : Prop where
  set : h.vfsHandle = true
  kept : h.freed = false
  closes : h.closes = 0
  used : h.misused = false
  asked : h.asked = false

/-- Closed, and cleared to be taken out of the table. -/
structure Handle.Closing (h : Handle) : Prop where
  cleared : h.vfsHandle = false
  kept : h.freed = false
  closes : h.closes = 1
  used : h.misused = false

structure Handle.Done (h : Handle) : Prop where
  closes : h.closes = 1
  used : h.misused = false

/-- The connection has still to go through the table. -/
def Thread.present (kind : Kind) (thread : Thread) : Prop := thread ≠ .gone ∧ (kind = .directory → thread ≠ .leaving)

/-- How far a handle has got, and who answers for it. -/
inductive State.Fits (s : State) (kind : Kind) (address : Nat) (h : Handle) : Prop where
  | live (live : h.Live) (known : (s.tables kind).ids h.id = some address)
      (present : (s.threads h.lastConnection).present kind)
      (removing : s.threads h.lastConnection ≠ .removing kind address)
  | closing (closing : h.Closing) (known : (s.tables kind).ids h.id = some address)
      (removing : s.threads h.lastConnection = .removing kind address)
  | done (done : h.Done) (unknown : (s.tables kind).ids h.id ≠ some address)

structure State.Sound (s : State) : Prop where
  fits : ∀ (kind : Kind) (address : Nat) (h : Handle), (s.tables kind).handles address = some h → s.Fits kind address h
  listed : ∀ (kind : Kind) (id address : Nat), (s.tables kind).ids id = some address →
    ∃ h, (s.tables kind).handles address = some h ∧ h.id = id
  held : ∀ (connection : Nat) (kind : Kind) (address : Nat), (s.threads connection).held = some (kind, address) →
    ∃ h, (s.tables kind).handles address = some h ∧ (s.tables kind).ids h.id = some address ∧
      h.lastConnection = connection

variable {s : State} {kind other : Kind} {connection address : Nat} {h : Handle} {t : Table} {thread : Thread}

theorem State.Sound.new : State.new.Sound := by
  refine ⟨?_, ?_, ?_⟩
  · intro kind address h never
    cases never
  · intro kind id address never
    cases never
  · intro connection kind address never
    cases never

@[simp] theorem State.setTable_self (s : State) (kind : Kind) (t : Table) : (s.setTable kind t).tables kind = t :=
  Function.update_self _ _ _

theorem State.setTable_of_ne (s : State) (t : Table) (apart : other ≠ kind) :
    (s.setTable kind t).tables other = s.tables other :=
  Function.update_of_ne apart _ _

@[simp] theorem State.setTable_threads (s : State) (kind : Kind) (t : Table) : (s.setTable kind t).threads = s.threads := rfl

@[simp] theorem State.setThread_tables (s : State) (connection : Nat) (thread : Thread) :
    (s.setThread connection thread).tables = s.tables := rfl

@[simp] theorem State.setThread_self (s : State) (connection : Nat) (thread : Thread) :
    (s.setThread connection thread).threads connection = thread :=
  Function.update_self _ _ _

theorem State.setThread_of_ne (s : State) (thread : Thread) {another : Nat} (apart : another ≠ connection) :
    (s.setThread connection thread).threads another = s.threads another :=
  Function.update_of_ne apart _ _

/-- A handle does not notice what changes neither its entry nor what its connection does to it. -/
theorem State.Fits.frame {u : State} (fits : s.Fits kind address h)
    (ids : (u.tables kind).ids h.id = (s.tables kind).ids h.id)
    (present : (s.threads h.lastConnection).present kind → (u.threads h.lastConnection).present kind)
    (removing : u.threads h.lastConnection = .removing kind address ↔
      s.threads h.lastConnection = .removing kind address) : u.Fits kind address h := by
  cases fits with
  | live live known here away => exact .live live (ids.trans known) (present here) fun now => away (removing.mp now)
  | closing closing known at_work => exact .closing closing (ids.trans known) (removing.mpr at_work)
  | done done unknown => exact .done done (by rw [ids]; exact unknown)

theorem State.Fits.of_known (fits : s.Fits kind address h) (known : (s.tables kind).ids h.id = some address) :
    h.Live ∧ s.threads h.lastConnection ≠ .removing kind address ∨
      h.Closing ∧ s.threads h.lastConnection = .removing kind address := by
  cases fits with
  | live live _ _ away => exact Or.inl ⟨live, away⟩
  | closing closing _ at_work => exact Or.inr ⟨closing, at_work⟩
  | done _ unknown => exact absurd known unknown

theorem State.Fits.of_free (fits : s.Fits kind address h) (known : (s.tables kind).ids h.id = some address)
    (free : ∀ connection, (s.threads connection).held ≠ some (kind, address)) : h.Live := by
  rcases fits.of_known known with ⟨live, -⟩ | ⟨-, at_work⟩
  · exact live
  · have never := free h.lastConnection
    rw [at_work] at never
    exact absurd rfl never

theorem Handle.Live.free (live : h.Live) : h.free.Done := by
  rw [Handle.free, if_pos live.set]
  refine ⟨?_, ?_⟩
  · show (if true then h.closes + 1 else h.closes) = 1
    rw [if_pos rfl, live.closes]
  · show (h.misused || h.freed || decide (h.closes ≠ 0)) = false
    rw [live.used, live.kept, live.closes]
    rfl

theorem Handle.Closing.free (closing : h.Closing) : h.free.Done := by
  rw [Handle.free, if_neg (by rw [closing.cleared]; decide)]
  exact ⟨closing.closes, closing.used⟩

theorem Handle.free_id (h : Handle) : h.free.id = h.id := by
  rw [Handle.free]
  split
  · rfl
  · rfl

theorem State.Sound.known (sound : s.Sound) {id : Nat} (here : (s.tables kind).ids id = some address) :
    ∃ h, (s.tables kind).handles address = some h ∧ h.id = id ∧ (s.tables kind).ids h.id = some address := by
  obtain ⟨h, there, same⟩ := sound.listed kind id address here
  exact ⟨h, there, same, by rw [same]; exact here⟩

/-- A thread that is still serving requests. -/
def Thread.serving (thread : Thread) : Prop := thread ≠ .gone ∧ thread ≠ .leaving

theorem Thread.serving.present (serving : thread.serving) (kind : Kind) : thread.present kind :=
  ⟨serving.1, fun _ => serving.2⟩

theorem Thread.calling_serving (kind : Kind) (address : Nat) (closing : Bool) :
    (Thread.calling kind address closing).serving := by
  constructor
  · intro never
    cases never
  · intro never
    cases never

theorem Thread.removing_serving (kind : Kind) (address : Nat) : (Thread.removing kind address).serving := by
  constructor
  · intro never
    cases never
  · intro never
    cases never

theorem Handle.performed_id (h : Handle) (closing ok : Bool) : (h.performed closing ok).id = h.id ∧
    (h.performed closing ok).lastConnection = h.lastConnection := by
  rw [Handle.performed]
  dsimp only
  split
  · exact ⟨rfl, rfl⟩
  · exact ⟨rfl, rfl⟩

theorem Handle.Live.close (live : h.Live) : (h.performed true true).Closing := by
  rw [Handle.performed, live.set, if_pos rfl]
  refine ⟨Bool.and_false _, live.kept, ?_, ?_⟩
  · show h.closes + 1 = 1
    rw [live.closes]
  · show (h.misused || h.freed || decide (h.closes ≠ 0)) = false
    rw [live.used, live.kept, live.closes]
    rfl

theorem Handle.Live.use (live : h.Live) (ok : Bool) : (h.performed false ok).Live := by
  rw [Handle.performed, live.set, if_pos rfl]
  refine ⟨(Bool.and_true _).trans live.set, live.kept, live.closes, ?_, ?_⟩
  · show (h.misused || h.freed || decide (h.closes ≠ 0)) = false
    rw [live.used, live.kept, live.closes]
    rfl
  · show (h.asked || false) = false
    rw [live.asked]
    rfl

/-- One connection does something to one handle, which no other connection holds. -/
theorem State.Sound.change (sound : s.Sound) (changed : Handle) (thread : Thread) {ids : Nat → Option Nat}
    (there : (s.tables kind).handles address = some h) (known : (s.tables kind).ids h.id = some address)
    (others : ∀ another, another ≠ connection → (s.threads another).held ≠ some (kind, address))
    (only : ∀ held ∈ (s.threads connection).held, held = (kind, address)) (same : changed.id = h.id)
    (kept : ∀ id, id ≠ h.id → ids id = (s.tables kind).ids id) (own : ids h.id = some address ∨ ids h.id = none)
    (serving : thread.serving)
    (held : ∀ held ∈ thread.held, held = (kind, address) ∧ ids h.id = some address ∧ changed.lastConnection = connection)
    (fits : ((s.setTable kind { s.tables kind with
      handles := Function.update (s.tables kind).handles address (some changed)
      ids := ids }).setThread connection thread).Fits kind address changed) :
    ((s.setTable kind { s.tables kind with
      handles := Function.update (s.tables kind).handles address (some changed)
      ids := ids }).setThread connection thread).Sound := by
  have unmoved : ∀ {another : Kind} {place : Nat} {g : Handle}, (another, place) ≠ (kind, address) →
      s.Fits another place g →
      (((s.setTable kind { s.tables kind with
        handles := Function.update (s.tables kind).handles address (some changed)
        ids := ids }).setThread connection thread).tables another).ids g.id = (s.tables another).ids g.id →
      ((s.setTable kind { s.tables kind with
        handles := Function.update (s.tables kind).handles address (some changed)
        ids := ids }).setThread connection thread).Fits another place g := by
    intro another place g apart fits listed
    by_cases mine : g.lastConnection = connection
    · apply fits.frame listed
      · intro _
        rw [mine, State.setThread_self]
        exact serving.present another
      · rw [mine, State.setThread_self]
        constructor
        · intro removing
          exact absurd (held (another, place) (by rw [removing]; rfl)).1 apart
        · intro removing
          exact absurd (only (another, place) (by rw [removing]; rfl)) apart
    · apply fits.frame listed
      · rw [State.setThread_of_ne _ _ mine]
        exact fun present => present
      · rw [State.setThread_of_ne _ _ mine]
        exact Iff.rfl
  refine ⟨?_, ?_, ?_⟩
  · intro another place g found
    rw [State.setThread_tables] at found
    by_cases this : another = kind
    · rw [this] at found ⊢
      rw [State.setTable_self] at found
      by_cases that : place = address
      · have found : Function.update (s.tables kind).handles address (some changed) place = some g := found
        rw [that, Function.update_self] at found
        rw [that, ← Option.some.inj found]
        exact fits
      · have found : Function.update (s.tables kind).handles address (some changed) place = some g := found
        rw [Function.update_of_ne that] at found
        have old := sound.fits kind place g found
        by_cases named : g.id = h.id
        · -- its id stands for the other handle, so it has left the table
          cases old with
          | live _ listed =>
            rw [named, known] at listed
            exact absurd (Option.some.inj listed).symm that
          | closing _ listed =>
            rw [named, known] at listed
            exact absurd (Option.some.inj listed).symm that
          | done done _ =>
            refine .done done ?_
            rw [State.setThread_tables, State.setTable_self, named]
            intro never
            have never : ids h.id = some place := never
            rcases own with here | none
            · rw [here] at never
              exact that (Option.some.inj never).symm
            · rw [none] at never
              cases never
        · apply unmoved (by simp [that]) old
          rw [State.setThread_tables, State.setTable_self]
          exact kept g.id named
    · rw [State.setTable_of_ne _ _ this] at found
      apply unmoved (by simp [this]) (sound.fits another place g found)
      rw [State.setThread_tables, State.setTable_of_ne _ _ this]
  · intro another id place listed
    rw [State.setThread_tables] at listed ⊢
    by_cases this : another = kind
    · rw [this, State.setTable_self] at listed ⊢
      have listed : ids id = some place := listed
      show ∃ g, Function.update (s.tables kind).handles address (some changed) place = some g ∧ g.id = id
      by_cases named : id = h.id
      · rw [named] at listed
        rcases own with here | none
        · rw [here] at listed
          cases listed
          rw [Function.update_self]
          exact ⟨changed, rfl, same.trans named.symm⟩
        · rw [none] at listed
          cases listed
      · rw [kept id named] at listed
        obtain ⟨g, found, number⟩ := sound.listed kind id place listed
        have apart : place ≠ address := by
          intro that
          rw [that, there] at found
          cases found
          exact named number.symm
        rw [Function.update_of_ne apart]
        exact ⟨g, found, number⟩
    · rw [State.setTable_of_ne _ _ this] at listed ⊢
      exact sound.listed another id place listed
  · intro another other place holds
    rw [State.setThread_tables]
    by_cases mine : another = connection
    · rw [mine, State.setThread_self] at holds
      obtain ⟨here, listed, last⟩ := held _ holds
      cases here
      rw [State.setTable_self]
      refine ⟨changed, Function.update_self _ _ _, ?_, last.trans mine.symm⟩
      rw [same]
      exact listed
    · rw [State.setThread_of_ne _ _ mine] at holds
      obtain ⟨g, found, listed, last⟩ := sound.held another other place holds
      by_cases this : other = kind
      · rw [this] at found listed holds ⊢
        have apart : place ≠ address := fun that => others another mine (that ▸ holds)
        rw [State.setTable_self]
        refine ⟨g, (Function.update_of_ne apart _ _).trans found, ?_, last⟩
        have named : g.id ≠ h.id := by
          intro named
          rw [named, known] at listed
          exact apart (Option.some.inj listed).symm
        exact (kept g.id named).trans listed
      · rw [State.setTable_of_ne _ _ this]
        exact ⟨g, found, listed, last⟩

theorem State.Sound.request (sound : s.Sound) {id : Nat} {closing : Bool} (idle : s.threads connection = .idle)
    (here : (s.tables kind).ids id = some address)
    (free : ∀ another, (s.threads another).held ≠ some (kind, address)) :
    ((s.setTable kind ((s.tables kind).getHandle connection address)).setThread connection
      (.calling kind address closing)).Sound := by
  obtain ⟨h, there, -, known⟩ := sound.known here
  have live := (sound.fits kind address h there).of_free known free
  rw [Table.getHandle, there]
  apply sound.change { h with lastConnection := connection } (.calling kind address closing) there known (fun another _ => free another)
    _ rfl (fun _ _ => rfl) (Or.inl known) (Thread.calling_serving kind address closing)
  · intro held here
    cases here
    exact ⟨rfl, known, rfl⟩
  · refine .live ⟨live.set, live.kept, live.closes, live.used, live.asked⟩ ?_ ?_ ?_
    · rw [State.setThread_tables, State.setTable_self]
      exact known
    · rw [State.setThread_self]
      exact (Thread.calling_serving kind address closing).present kind
    · rw [State.setThread_self]
      intro never
      cases never
  · rw [idle]
    intro held never
    cases never

theorem State.Sound.alone (sound : s.Sound) (holds : (s.threads connection).held = some (kind, address)) :
    ∃ h, (s.tables kind).handles address = some h ∧ (s.tables kind).ids h.id = some address ∧
      h.lastConnection = connection ∧ s.Fits kind address h ∧
      ∀ another, another ≠ connection → (s.threads another).held ≠ some (kind, address) := by
  obtain ⟨h, there, known, last⟩ := sound.held connection kind address holds
  refine ⟨h, there, known, last, sound.fits kind address h there, ?_⟩
  intro another apart also
  obtain ⟨g, found, -, other⟩ := sound.held another kind address also
  rw [there] at found
  cases found
  exact apart (other.symm.trans last)

theorem State.Sound.perform (sound : s.Sound) {closing ok : Bool}
    (calling : s.threads connection = .calling kind address closing) (fine : closing = true → ok = true) :
    ((s.setTable kind { s.tables kind with
      handles := Function.update (s.tables kind).handles address
        (((s.tables kind).handles address).map (·.performed closing ok)) }).setThread
          connection (if closing && ok then .removing kind address else .idle)).Sound := by
  obtain ⟨h, there, known, last, fits, others⟩ := sound.alone (by rw [calling]; rfl)
  have live : h.Live := by
    rcases fits.of_known known with ⟨live, -⟩ | ⟨-, removing⟩
    · exact live
    · rw [last, calling] at removing
      cases removing
  have only : ∀ held ∈ (s.threads connection).held, held = (kind, address) := by
    intro held here
    rw [calling] at here
    exact (Option.some.inj here).symm
  have named := h.performed_id closing ok
  rw [there]
  cases closing with
  | true =>
    rw [fine rfl] at named ⊢
    refine sound.change (h.performed true true) (.removing kind address) there known others only
      named.1 (fun _ _ => rfl) (Or.inl known) (Thread.removing_serving kind address) ?_ (.closing live.close ?_ ?_)
    · intro held here
      exact ⟨(Option.some.inj here).symm, known, named.2.trans last⟩
    · rw [named.1, State.setThread_tables, State.setTable_self]
      exact known
    · rw [named.2, last, State.setThread_self]
  | false =>
    refine sound.change (h.performed false ok) .idle there known others only
      named.1 (fun _ _ => rfl) (Or.inl known) ⟨by decide, by decide⟩ ?_ (.live (live.use ok) ?_ ?_ ?_)
    · intro held never
      cases never
    · rw [named.1, State.setThread_tables, State.setTable_self]
      exact known
    · rw [named.2, last, State.setThread_self]
      exact Thread.serving.present ⟨by decide, by decide⟩ kind
    · rw [named.2, last, State.setThread_self]
      intro never
      cases never

theorem State.Sound.remove (sound : s.Sound) (removing : s.threads connection = .removing kind address)
    (there : (s.tables kind).handles address = some h) :
    ((s.setTable kind ((s.tables kind).removeHandle h)).setThread connection .idle).Sound := by
  obtain ⟨g, found, known, last, fits, others⟩ := sound.alone (by rw [removing]; rfl)
  rw [there] at found
  cases found
  have closing : h.Closing := by
    rcases fits.of_known known with ⟨-, away⟩ | ⟨closing, -⟩
    · rw [last] at away
      exact absurd removing away
    · exact closing
  rw [Table.removeHandle, known]
  dsimp only
  rw [Table.free, there]
  refine sound.change h.free .idle there known others ?_ h.free_id ?_
    (Or.inr (Function.update_self _ _ _)) ⟨by decide, by decide⟩ ?_ ?_
  · intro held here
    rw [removing] at here
    exact (Option.some.inj here).symm
  · intro id apart
    exact Function.update_of_ne apart _ _
  · intro held never
    cases never
  · refine .done closing.free ?_
    rw [State.setThread_tables, State.setTable_self, h.free_id]
    show Function.update (s.tables kind).ids h.id none h.id ≠ some address
    rw [Function.update_self]
    intro never
    cases never

theorem State.setThread_same (idle : s.threads connection = thread) : s.setThread connection thread = s := by
  rw [State.setThread, ← idle, Function.update_eq_self]

theorem State.setTable_idem (s : State) (kind : Kind) (t u : Table) : (s.setTable kind t).setTable kind u = s.setTable kind u := by
  rw [State.setTable, State.setTable, State.setTable, Function.update_idem]

/-- A new handle is put under an id that nobody has. -/
theorem State.Sound.insert (sound : s.Sound) {id : Nat} (next : Nat) (fresh : (s.tables kind).handles address = none)
    (free : (s.tables kind).ids id = none) (idle : s.threads connection = .idle) :
    (s.setTable kind ⟨Function.update (s.tables kind).handles address (some (handleNew connection id)),
      Function.update (s.tables kind).ids id (some address), next⟩).Sound := by
  have apart : ∀ {place : Nat} {g : Handle}, (s.tables kind).handles place = some g → place ≠ address := by
    intro place g found that
    rw [that, fresh] at found
    cases found
  have unmoved : ∀ {another : Kind} {place : Nat} {g : Handle}, s.Fits another place g →
      ((s.setTable kind ⟨Function.update (s.tables kind).handles address (some (handleNew connection id)),
        Function.update (s.tables kind).ids id (some address), next⟩).tables another).ids g.id =
          (s.tables another).ids g.id →
      (s.setTable kind ⟨Function.update (s.tables kind).handles address (some (handleNew connection id)),
        Function.update (s.tables kind).ids id (some address), next⟩).Fits another place g := by
    intro another place g fits same
    exact fits.frame same (fun present => present) Iff.rfl
  refine ⟨?_, ?_, ?_⟩
  · intro another place g found
    by_cases this : another = kind
    · rw [this] at found ⊢
      rw [State.setTable_self] at found
      have found : Function.update (s.tables kind).handles address (some (handleNew connection id)) place = some g := found
      by_cases that : place = address
      · rw [that, Function.update_self] at found
        rw [← Option.some.inj found, that]
        refine .live ⟨rfl, rfl, rfl, rfl, rfl⟩ ?_ ?_ ?_
        · rw [State.setTable_self]
          exact Function.update_self _ _ _
        · show (s.threads connection).present kind
          rw [idle]
          exact Thread.serving.present ⟨by decide, by decide⟩ kind
        · show s.threads connection ≠ _
          rw [idle]
          intro never
          cases never
      · rw [Function.update_of_ne that] at found
        have old := sound.fits kind place g found
        by_cases named : g.id = id
        · cases old with
          | live _ listed =>
            rw [named, free] at listed
            cases listed
          | closing _ listed =>
            rw [named, free] at listed
            cases listed
          | done done _ =>
            refine .done done ?_
            rw [State.setTable_self, named]
            show Function.update (s.tables kind).ids id (some address) id ≠ some place
            rw [Function.update_self]
            exact fun same => that (Option.some.inj same).symm
        · apply unmoved old
          rw [State.setTable_self]
          exact Function.update_of_ne named _ _
    · rw [State.setTable_of_ne _ _ this] at found
      apply unmoved (sound.fits another place g found)
      rw [State.setTable_of_ne _ _ this]
  · intro another number place listed
    by_cases this : another = kind
    · rw [this, State.setTable_self] at listed ⊢
      have listed : Function.update (s.tables kind).ids id (some address) number = some place := listed
      show ∃ g, Function.update (s.tables kind).handles address (some (handleNew connection id)) place = some g ∧ _
      by_cases named : number = id
      · rw [named, Function.update_self] at listed
        cases listed
        rw [Function.update_self]
        exact ⟨_, rfl, named.symm⟩
      · rw [Function.update_of_ne named] at listed
        obtain ⟨g, found, same⟩ := sound.listed kind number place listed
        rw [Function.update_of_ne (apart found)]
        exact ⟨g, found, same⟩
    · rw [State.setTable_of_ne _ _ this] at listed ⊢
      exact sound.listed another number place listed
  · intro another other place held
    obtain ⟨g, found, listed, last⟩ := sound.held another other place held
    by_cases this : other = kind
    · rw [this] at found listed ⊢
      rw [State.setTable_self]
      refine ⟨g, (Function.update_of_ne (apart found) _ _).trans found, ?_, last⟩
      have named : g.id ≠ id := by
        intro named
        rw [named, free] at listed
        cases listed
      exact (Function.update_of_ne named _ _).trans listed
    · rw [State.setTable_of_ne _ _ this]
      exact ⟨g, found, listed, last⟩

theorem State.Sound.opened (sound : s.Sound) (idle : s.threads connection = .idle)
    (fresh : (s.tables kind).handles address = none)
    (unused : ∀ old, (s.tables kind).ids (s.tables kind).nextId = some old →
      ∀ another, (s.threads another).held ≠ some (kind, old)) :
    (s.setTable kind ((s.tables kind).addHandle connection address)).Sound := by
  rw [Table.addHandle]
  cases listed : (s.tables kind).ids (s.tables kind).nextId with
  | none => exact sound.insert _ fresh listed idle
  | some old =>
    -- the id has been given out before, and the handle that has it is replaced
    obtain ⟨h, there, named, known⟩ := sound.known listed
    have live := (sound.fits kind old h there).of_free known (unused old listed)
    have removed : ((s.setTable kind { s.tables kind with
        handles := Function.update (s.tables kind).handles old (some h.free)
        ids := Function.update (s.tables kind).ids h.id none }).setThread connection .idle).Sound :=
      sound.change h.free .idle there known (fun another _ => unused old listed another)
      (by intro held never; rw [idle] at never; cases never) h.free_id
      (fun id apart => Function.update_of_ne apart _ _) (Or.inr (Function.update_self _ _ _))
      ⟨by decide, by decide⟩ (by intro held never; cases never)
      (by
        refine .done live.free ?_
        rw [State.setThread_tables, State.setTable_self, h.free_id]
        show Function.update (s.tables kind).ids h.id none h.id ≠ some old
        rw [Function.update_self]
        intro never
        cases never)
    rw [State.setThread_same (by exact idle)] at removed
    have apart : address ≠ old := by
      intro that
      rw [that, there] at fresh
      cases fresh
    have room : ((s.setTable kind { s.tables kind with
        handles := Function.update (s.tables kind).handles old (some h.free)
        ids := Function.update (s.tables kind).ids h.id none }).tables kind).handles address = none := by
      rw [State.setTable_self]
      exact (Function.update_of_ne apart _ _).trans fresh
    have empty : ((s.setTable kind { s.tables kind with
        handles := Function.update (s.tables kind).handles old (some h.free)
        ids := Function.update (s.tables kind).ids h.id none }).tables kind).ids (s.tables kind).nextId = none := by
      rw [State.setTable_self, named]
      exact Function.update_self _ _ _
    have inserted := removed.insert (((s.tables kind).nextId + 1) % 2 ^ 32) room empty idle
    rw [State.setTable_idem, State.setTable_self] at inserted
    dsimp only at inserted ⊢
    rw [named, Function.update_idem] at inserted
    rw [Table.free, there]
    exact inserted

/-- A connection that is at work on nothing goes through a table for the last time. -/
theorem State.Sound.destroy (sound : s.Sound) (rests : (s.threads connection).held = none) (nothing : thread.held = none)
    (rest : ∀ other, other ≠ kind → (s.threads connection).present other → thread.present other) :
    ((s.setTable kind ((s.tables kind).destroy connection)).setThread connection thread).Sound := by
  have away : ∀ {other : Kind} {place : Nat}, s.threads connection ≠ .removing other place ∧
      thread ≠ .removing other place := by
    intro other place
    constructor
    · intro removing
      rw [removing] at rests
      cases rests
    · intro removing
      rw [removing] at nothing
      cases nothing
  have kept : ∀ {id place : Nat} {g : Handle}, (s.tables kind).handles place = some g →
      (s.tables kind).ids id = some place →
      ((s.tables kind).destroy connection).ids id = if g.lastConnection = connection then none else some place := by
    intro id place g found listed
    show ((s.tables kind).ids id).filter _ = _
    rw [listed, Option.filter_some, found]
    by_cases mine : g.lastConnection = connection
    · rw [if_pos mine, if_neg (by simp [mine])]
    · rw [if_neg mine, if_pos (by simp [mine])]
  have listing : ∀ {id place : Nat}, ((s.tables kind).destroy connection).ids id = some place →
      (s.tables kind).ids id = some place ∧ ∃ g, (s.tables kind).handles place = some g ∧ g.id = id ∧
        g.lastConnection ≠ connection := by
    intro id place listed
    obtain ⟨before, -⟩ := Option.filter_eq_some_iff.mp listed
    obtain ⟨g, found, named⟩ := sound.listed kind id place before
    refine ⟨before, g, found, named, ?_⟩
    intro mine
    rw [kept found before, if_pos mine] at listed
    cases listed
  have handles : ∀ {place : Nat} {g : Handle}, (s.tables kind).handles place = some g →
      ((s.tables kind).destroy connection).handles place =
        some (if (s.tables kind).ids g.id = some place ∧ g.lastConnection = connection then g.free else g) := by
    intro place g found
    show ((s.tables kind).handles place).map _ = _
    rw [found]
    rfl
  refine ⟨?_, ?_, ?_⟩
  · intro another place g found
    rw [State.setThread_tables] at found
    by_cases this : another = kind
    · rw [this] at found ⊢
      rw [State.setTable_self] at found
      obtain ⟨h, before, same⟩ := Option.map_eq_some_iff.mp found
      have fits := sound.fits kind place h before
      by_cases mine : (s.tables kind).ids h.id = some place ∧ h.lastConnection = connection
      · rw [if_pos mine] at same
        rcases fits.of_known mine.1 with ⟨live, -⟩ | ⟨-, removing⟩
        · rw [← same]
          refine .done live.free ?_
          rw [State.setThread_tables, State.setTable_self, h.free_id, kept before mine.1, if_pos mine.2]
          intro never
          cases never
        · rw [mine.2] at removing
          exact absurd removing away.1
      · rw [if_neg mine] at same
        rw [← same]
        by_cases known : (s.tables kind).ids h.id = some place
        · have theirs : h.lastConnection ≠ connection := fun last => mine ⟨known, last⟩
          apply fits.frame
          · rw [State.setThread_tables, State.setTable_self, kept before known, if_neg theirs, known]
          · rw [State.setThread_of_ne _ _ theirs]
            exact fun present => present
          · rw [State.setThread_of_ne _ _ theirs]
            exact Iff.rfl
        · cases fits with
          | live _ listed => exact absurd listed known
          | closing _ listed => exact absurd listed known
          | done done _ =>
            refine .done done ?_
            rw [State.setThread_tables, State.setTable_self]
            exact fun listed => known (listing listed).1
    · rw [State.setTable_of_ne _ _ this] at found
      apply (sound.fits another place g found).frame
      · rw [State.setThread_tables, State.setTable_of_ne _ _ this]
      · by_cases mine : g.lastConnection = connection
        · rw [mine, State.setThread_self]
          exact rest another this
        · rw [State.setThread_of_ne _ _ mine]
          exact fun present => present
      · by_cases mine : g.lastConnection = connection
        · rw [mine, State.setThread_self]
          exact ⟨fun never => absurd never away.2, fun never => absurd never away.1⟩
        · rw [State.setThread_of_ne _ _ mine]
          exact Iff.rfl
  · intro another id place listed
    rw [State.setThread_tables] at listed ⊢
    by_cases this : another = kind
    · rw [this, State.setTable_self] at listed ⊢
      obtain ⟨-, g, found, named, theirs⟩ := listing listed
      rw [handles found, if_neg fun both => theirs both.2]
      exact ⟨g, rfl, named⟩
    · rw [State.setTable_of_ne _ _ this] at listed ⊢
      exact sound.listed another id place listed
  · intro another other place held
    by_cases mine : another = connection
    · rw [mine, State.setThread_self, nothing] at held
      cases held
    · rw [State.setThread_of_ne _ _ mine] at held
      obtain ⟨g, found, listed, last⟩ := sound.held another other place held
      rw [State.setThread_tables]
      by_cases this : other = kind
      · rw [this] at found listed ⊢
        have theirs : g.lastConnection ≠ connection := by
          rw [last]
          exact mine
        rw [State.setTable_self, handles found, if_neg fun both => theirs both.2]
        refine ⟨g, rfl, ?_, last⟩
        rw [kept found listed, if_neg theirs]
      · rw [State.setTable_of_ne _ _ this]
        exact ⟨g, found, listed, last⟩

end Invariant

section Runs

variable {s t : State} {event : Event}

theorem State.Sound.step (sound : s.Sound) (allowed : s.allowed event) (careful : s.careful event)
    (stepped : s.step event = some t) : t.Sound := by
  cases event with
  | opened connection kind address =>
    rw [State.step] at stepped
    split at stepped
    · rename_i idle
      cases stepped
      exact sound.opened idle allowed careful
    · cases stepped
  | request connection kind id closing =>
    rw [State.step] at stepped
    split at stepped
    · rename_i idle
      split at stepped
      · rename_i address here
        cases stepped
        exact sound.request idle here (allowed address here)
      · cases stepped
        exact sound
    · cases stepped
  | perform connection ok =>
    rw [State.step] at stepped
    split at stepped
    · rename_i kind address closing calling
      cases stepped
      refine sound.perform calling ?_
      intro closes
      rw [closes] at calling
      exact careful kind address calling
    · cases stepped
  | remove connection =>
    rw [State.step] at stepped
    split at stepped
    · rename_i kind address removing
      obtain ⟨h, there, rfl⟩ := Option.map_eq_some_iff.mp stepped
      exact sound.remove removing there
    · cases stepped
  | leave connection =>
    rw [State.step] at stepped
    split at stepped
    · rename_i idle
      cases stepped
      refine sound.destroy (by rw [idle]; rfl) rfl ?_
      intro other apart _
      exact ⟨by decide, fun directory => absurd directory apart⟩
    · cases stepped
  | left connection =>
    rw [State.step] at stepped
    split at stepped
    · rename_i leaving
      cases stepped
      refine sound.destroy (by rw [leaving]; rfl) rfl ?_
      intro other apart present
      -- no directory is left that waits for the connection
      rw [leaving] at present
      cases other with
      | file => exact absurd rfl apart
      | directory => exact absurd rfl (present.2 rfl)
    · cases stepped

/-- Where no close fails and no id is given out again under a request: everything that has been opened has
been closed at most once, it has been closed when its client has asked for it or the last connection that
used it is gone, and it has not been used after that. -/
theorem State.run_closed (run : Run State.step (fun s e => s.allowed e ∧ s.careful e) State.new s) {kind : Kind}
    {address : Nat} {h : Handle} (here : (s.tables kind).handles address = some h) :
    h.closes ≤ 1 ∧ (h.asked = true → h.closes = 1) ∧ (s.threads h.lastConnection = .gone → h.closes = 1) ∧
      h.misused = false := by
  have sound : s.Sound := by
    apply run.keeps (P := State.Sound) State.Sound.new
    intro s event t sound fits stepped
    exact sound.step fits.1 fits.2 stepped
  cases sound.fits kind address h here with
  | live live _ present _ =>
    refine ⟨by rw [live.closes]; decide, ?_, ?_, live.used⟩
    · intro asked
      rw [live.asked] at asked
      cases asked
    · intro gone
      exact absurd gone present.1
  | closing closing _ _ => exact ⟨Nat.le_of_eq closing.closes, fun _ => closing.closes, fun _ => closing.closes, closing.used⟩
  | done done _ => exact ⟨Nat.le_of_eq done.closes, fun _ => done.closes, fun _ => done.closes, done.used⟩

/-- A file is opened and closed. -/
theorem State.run_closed_file : ∃ (s : State) (h : Handle), (s.tables Kind.file).handles 10 = some h ∧ h.asked = true ∧
    h.closes ≤ 1 ∧ (h.asked = true → h.closes = 1) ∧ (s.threads h.lastConnection = .gone → h.closes = 1) ∧
      h.misused = false := by
  have run : ∃ s, Run State.step (fun s e => s.allowed e ∧ s.careful e) State.new s ∧
      ∃ h, (s.tables .file).handles 10 = some h ∧ h.asked = true := by
    refine ⟨_, .next (.remove 0) (.next (.perform 0 true) (.next (.request 0 .file 1 true)
      (.next (.opened 0 .file 10) .refl ⟨rfl, ?_⟩ rfl) ⟨?_, trivial⟩ rfl) ⟨trivial, ?_⟩ rfl) ⟨trivial, trivial⟩ rfl,
      _, rfl, rfl⟩
    · intro address never
      cases never
    · intro address _ connection never
      cases never
    · intro kind address _
      rfl
  obtain ⟨s, run, h, here, asked⟩ := run
  exact ⟨s, h, here, asked, State.run_closed run here⟩

/-- A close fails, and the connection that asked for it is destroyed. -/
theorem close_failed : ∃ (s : State) (h : Handle), Run State.step State.allowed State.new s ∧ (s.tables Kind.file).handles 10 = some h ∧
    h.closes = 2 ∧ h.misused = true := by
  refine ⟨_, _, .next (.left 0) (.next (.leave 0) (.next (.perform 0 false) (.next (.request 0 .file 1 true)
    (.next (.opened 0 .file 10) .refl rfl rfl) ?_ rfl) trivial rfl) trivial rfl) trivial rfl, rfl, rfl, rfl⟩
  intro address _ connection never
  cases never

end Runs

end GnomeVfs.Daemon
