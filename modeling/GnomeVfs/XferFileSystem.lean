import GnomeVfs.XferUnique

/- File systems as the transfer sees them, and what careful runs leave alone there. -/
namespace GnomeVfs.Xfer

open Interaction

variable {U : Type}

/-- A file system: names, the objects they stand for and their contents, the objects that
handles are bound to, and the names below a name that move with it. The content of a
directory is not its entries, which are names of their own. -/
structure FileSystem (U : Type) where
  Store : Type
  Object : Type
  Content : Type
  lookup : Store → U → Option Object
  content : Store → Object → Content
  bound : Store → Handle → Option Object
  below : U → U → Prop
  step : Store → XferEvent U → Store → Prop

/-- The calls that leave names and contents alone. -/
def Op.reads : Op U → Bool
  | .unlink _ | .removeDirectory _ | .makeDirectory _ | .createUri _ _ | .write _ _
  | .createSymbolicLink _ _ | .move _ _ _ => false
  | _ => true

/-- The calls that bind a handle or release one. -/
def Op.rebinds : Op U → Bool
  | .openUri _ | .createUri _ _ | .close _ => true
  | _ => false

namespace FileSystem

variable (fs : FileSystem U)

/-- Everything that had a name before still has it, with the same content. -/
def Saves (s s' : fs.Store) : Prop :=
  ∀ v o, fs.lookup s v = some o → fs.lookup s' v = some o ∧ fs.content s' o = fs.content s o

/-- On an existing name the exclusive calls answer `FILE_EXISTS` and change nothing. -/
structure Lawful : Prop where
  createUri_existing : ∀ {s s' u a}, fs.step s ⟨.createUri u true, a⟩ s' → fs.lookup s u ≠ none →
    a.1 = .fileExists ∧ s' = s
  createUri_new : ∀ {s s' u a}, fs.step s ⟨.createUri u true, a⟩ s' → fs.lookup s u = none →
    fs.Saves s s' ∧ (a.1 = .ok → ∃ o, fs.bound s' a.2 = some o ∧ ∀ v, fs.lookup s v ≠ some o)
  makeDirectory_existing : ∀ {s s' u a}, fs.step s ⟨.makeDirectory u, a⟩ s' → fs.lookup s u ≠ none →
    a = .fileExists ∧ s' = s
  makeDirectory_new : ∀ {s s' u a}, fs.step s ⟨.makeDirectory u, a⟩ s' → fs.lookup s u = none → fs.Saves s s'
  symbolicLink_existing : ∀ {s s' u text a}, fs.step s ⟨.createSymbolicLink u text, a⟩ s' →
    fs.lookup s u ≠ none → a = .fileExists ∧ s' = s
  symbolicLink_new : ∀ {s s' u text a}, fs.step s ⟨.createSymbolicLink u text, a⟩ s' →
    fs.lookup s u = none → fs.Saves s s'
  move_existing : ∀ {s s' u v a}, fs.step s ⟨.move u v false, a⟩ s' → fs.lookup s v ≠ none →
    a = .fileExists ∧ s' = s
  move_new : ∀ {s s' u v a}, fs.step s ⟨.move u v false, a⟩ s' → fs.lookup s v = none →
    ∀ w o, ¬ fs.below u w → fs.lookup s w = some o →
      fs.lookup s' w = some o ∧ fs.content s' o = fs.content s o
  write : ∀ {s s' h buffer a}, fs.step s ⟨.write h buffer, a⟩ s' → ∀ v o, fs.lookup s v = some o →
    fs.lookup s' v = some o ∧ (fs.bound s h ≠ some o → fs.content s' o = fs.content s o)
  reads : ∀ {s e s'}, fs.step s e s' → e.request.reads = true → fs.Saves s s'
  binds : ∀ {s e s'}, fs.step s e s' → e.request.rebinds = false → ∀ h, fs.bound s' h = fs.bound s h

inductive Steps : fs.Store → Trace U → fs.Store → Prop where
  | nil (s : fs.Store) : Steps s [] s
  | cons {s s' s'' : fs.Store} {e : XferEvent U} {trace : Trace U} :
      fs.step s e s' → Steps s' trace s'' → Steps s (e :: trace) s''

/-- The object has its name and its content, and is not the file that was created last. -/
structure Intact (v : U) (o : fs.Object) (c : fs.Content) (created : Option Handle) (s : fs.Store) : Prop where
  named : fs.lookup s v = some o
  same : fs.content s o = c
  closed : ∀ h, created = some h → fs.bound s h ≠ some o

variable {fs} {sources : List U} {v : U} {o : fs.Object} {c : fs.Content} {created : Option Handle}

theorem Intact.of_saves {s s' : fs.Store} (intact : fs.Intact v o c created s) (saves : fs.Saves s s')
    {next : Option Handle} (closed : ∀ h, next = some h → fs.bound s' h ≠ some o) :
    fs.Intact v o c next s' :=
  ⟨(saves v o intact.named).1, (saves v o intact.named).2.trans intact.same, closed⟩

/-- As long as no handle is bound or released, what is known of the last file stays true. -/
theorem Intact.closed_step (lawful : fs.Lawful) {s s' : fs.Store} {e : XferEvent U}
    (intact : fs.Intact v o c created s) (happens : fs.step s e s') (quiet : e.request.rebinds = false) :
    ∀ h, created = some h → fs.bound s' h ≠ some o := by
  intro h last
  rw [lawful.binds happens quiet]
  exact intact.closed h last

/-- A call that makes a new name, and answers `FILE_EXISTS` where the name is taken. -/
theorem Intact.fresh (lawful : fs.Lawful) {s s' : fs.Store} {e : XferEvent U} {u : U} {P : Prop}
    (intact : fs.Intact v o c created s) (happens : fs.step s e s') (quiet : e.request.rebinds = false)
    (existing : fs.lookup s u ≠ none → P ∧ s' = s) (new : fs.lookup s u = none → fs.Saves s s') :
    fs.Intact v o c created s' := by
  by_cases taken : fs.lookup s u = none
  · exact intact.of_saves (new taken) (intact.closed_step lawful happens quiet)
  · exact (existing taken).2 ▸ intact

theorem Intact.create (lawful : fs.Lawful) {s s' : fs.Store} {u : U} {a : VfsResult × Handle}
    (intact : fs.Intact v o c created s) (happens : fs.step s ⟨.createUri u true, a⟩ s') :
    fs.Intact v o c (if a.1 = .ok then some a.2 else none) s' := by
  by_cases taken : fs.lookup s u = none
  · obtain ⟨saves, binds⟩ := lawful.createUri_new happens taken
    refine intact.of_saves saves fun h last => ?_
    split at last
    · rename_i ok
      obtain ⟨object, bound, nameless⟩ := binds ok
      cases last
      rw [bound]
      rintro ⟨rfl⟩
      exact nameless v intact.named
    · cases last
  · obtain ⟨exists_, rfl⟩ := lawful.createUri_existing happens taken
    exact ⟨intact.named, intact.same, by simp [exists_]⟩

/-- One careful call leaves the object intact. -/
theorem Intact.step (lawful : fs.Lawful) (outside : ∀ u ∈ sources, ¬ fs.below u v) {s s' : fs.Store}
    {e : XferEvent U} (intact : fs.Intact v o c created s) (happens : fs.step s e s')
    (allowed : Allowed sources created e) : fs.Intact v o c (createdNext created e) s' := by
  obtain ⟨op, a⟩ := e
  cases op with
  | unlink u => cases allowed
  | removeDirectory u => cases allowed
  | createUri u exclusive =>
    cases allowed
    exact intact.create lawful happens
  | makeDirectory u =>
    exact intact.fresh lawful happens rfl (lawful.makeDirectory_existing happens) (lawful.makeDirectory_new happens)
  | createSymbolicLink u text =>
    exact intact.fresh lawful happens rfl (lawful.symbolicLink_existing happens) (lawful.symbolicLink_new happens)
  | write h buffer =>
    obtain ⟨named, same⟩ := lawful.write happens v o intact.named
    exact ⟨named, (same (intact.closed h allowed)).trans intact.same,
      intact.closed_step lawful happens rfl⟩
  | move u w force =>
    obtain ⟨member, rfl⟩ := allowed
    by_cases taken : fs.lookup s w = none
    · obtain ⟨named, same⟩ := lawful.move_new happens taken v o (outside u member) intact.named
      exact ⟨named, same.trans intact.same, intact.closed_step lawful happens rfl⟩
    · exact (lawful.move_existing happens taken).2 ▸ intact
  | openUri u => exact intact.of_saves (lawful.reads happens rfl) nofun
  | close h => exact intact.of_saves (lawful.reads happens rfl) nofun
  | _ => exact intact.of_saves (lawful.reads happens rfl) (intact.closed_step lawful happens rfl)

theorem guard_careful {trace : Trace U} {m : Guard} :
    (trace.foldl (guardStep sources) m).careful → m.careful := by
  induction trace generalizing m with
  | nil => exact id
  | cons e trace ih => exact fun careful => (ih careful).1

theorem Intact.steps (lawful : fs.Lawful) (outside : ∀ u ∈ sources, ¬ fs.below u v) {s s' : fs.Store}
    {trace : Trace U} (happen : fs.Steps s trace s') {m : Guard}
    (careful : (trace.foldl (guardStep sources) m).careful) (intact : fs.Intact v o c m.created s) :
    fs.lookup s' v = some o ∧ fs.content s' o = c := by
  induction happen generalizing m with
  | nil s => exact ⟨intact.named, intact.same⟩
  | @cons s s' s'' e trace happens _ ih =>
    have allowed := (guard_careful (m := guardStep sources m e) careful).2
    exact ih careful (intact.step lawful outside happens allowed)

end FileSystem

/-- The calls that look for unique names. -/
inductive UniqueCall (U : Type) where
  | copyItems (sources targets : List U) (mode : OverwriteMode)
  | moveItems (sources targets : List U)
  | newDirectory (targetDir : U) (name : Bytes)

namespace UniqueCall

def run (cfg : Config U) (fuel : Nat) : UniqueCall U → XferM U VfsResult
  | .copyItems sources targets mode => do
    let (result, _) ← Xfer.copyItems cfg fuel sources targets mode
    return result
  | .moveItems sources targets => Xfer.moveItems cfg fuel sources targets
  | .newDirectory targetDir name => newDirectoryWithUniqueName cfg fuel targetDir name

def moved : UniqueCall U → List U
  | .moveItems sources _ => sources
  | _ => []

theorem kept_run {cfg : Config U} (unique : cfg.options.useUniqueNames = true) {fuel : Nat} :
    ∀ call : UniqueCall U, Kept call.moved anything anything (call.run cfg fuel)
  | .copyItems _ _ _ => .bind (kept_copyItems unique) fun _ => Action.keeps_pure _
  | .moveItems _ _ => kept_moveItems unique
  | .newDirectory _ _ => kept_newDirectoryWithUniqueName

end UniqueCall

theorem careful_of_kept {sources : List U} {α : Type} {x : XferM U α} (kept : Kept sources anything anything x)
    {s : State} {trace : Trace U} {out : Outcome Stop (α × State)} (run : Runs (x s) trace out) :
    (trace.foldl (guardStep sources) ⟨none, True⟩).careful := by
  have seen := Prog.wp_runs (guardStep sources) run (kept s ⟨none, True⟩ ⟨trivial, trivial, trivial⟩)
  cases out with
  | returned r => exact seen.2.1
  | stopped reason =>
    obtain ⟨_, -, careful, -⟩ := seen
    exact careful

/-- Every object that exists before, outside the moved sources, keeps its name and its content. -/
theorem uniqueCall_keeps_objects (fs : FileSystem U) (lawful : fs.Lawful) (cfg : Config U)
    (unique : cfg.options.useUniqueNames = true) (fuel : Nat) (call : UniqueCall U) (s : State)
    (trace : Trace U) (out : Outcome Stop (VfsResult × State))
    (run : Runs (call.run cfg fuel s) trace out) (before after : fs.Store)
    (happen : fs.Steps before trace after) (v : U) (o : fs.Object) (existed : fs.lookup before v = some o)
    (outside : ∀ u ∈ call.moved, ¬ fs.below u v) :
    fs.lookup after v = some o ∧ fs.content after o = fs.content before o := by
  have careful := careful_of_kept (call.kept_run unique) run
  exact FileSystem.Intact.steps lawful outside happen careful ⟨existed, rfl, nofun⟩

inductive Node where
  | file (data : Bytes)
  | directory
  | link (reference : Bytes)
  deriving DecidableEq

/-- A disk of paths without renaming of trees, with its open handles and their positions. -/
structure Disk where
  files : Bytes → Option Node
  handles : Handle → Option (Bytes × Nat)
  next : Handle

namespace Disk

def data (d : Disk) (path : Bytes) : Bytes :=
  match d.files path with
  | some (.file data) => data
  | _ => []

def put (d : Disk) (path : Bytes) (node : Option Node) : Disk :=
  { d with files := fun p => if p = path then node else d.files p }

def bind (d : Disk) (handle : Handle) (state : Option (Bytes × Nat)) : Disk :=
  { d with handles := fun h => if h = handle then state else d.handles h }

def openFile (d : Disk) (path : Bytes) : Handle × Disk :=
  (d.next, { d.bind d.next (some (path, 0)) with next := d.next + 1 })

def info (d : Disk) (path : Bytes) : VfsResult × FileInfo :=
  match d.files path with
  | none => (.notFound, { name := path, type := .unknown })
  | some (.file data) => (.ok, { name := path, type := .regular, size := UInt64.ofNat data.length })
  | some .directory => (.ok, { name := path, type := .directory })
  | some (.link reference) => (.ok, { name := path, type := .symbolicLink, symlinkName := reference })

/-- Makes a new name. -/
def make (d : Disk) (path : Bytes) (node : Node) : VfsResult × Disk :=
  if d.files path = none then (.ok, d.put path (some node)) else (.fileExists, d)

def create (d : Disk) (path : Bytes) (exclusive : Bool) : (VfsResult × Handle) × Disk :=
  if exclusive && d.files path ≠ none then ((.fileExists, 0), d)
  else ((.ok, d.next), ((d.put path (some (.file []))).openFile path).2)

def readFile (d : Disk) (handle : Handle) (bytes : Nat) :
    (VfsResult × { data : Bytes // data.length ≤ bytes }) × Disk :=
  match d.handles handle with
  | none => ((.badFile, ⟨[], Nat.zero_le _⟩), d)
  | some (path, position) =>
    let block := ((d.data path).drop position).take bytes
    if block = [] then ((.eof, ⟨[], Nat.zero_le _⟩), d)
    else ((.ok, ⟨block, List.length_take_le _ _⟩), d.bind handle (some (path, position + block.length)))

def writeFile (d : Disk) (handle : Handle) (buffer : Bytes) : (VfsResult × Fin (buffer.length + 1)) × Disk :=
  match d.handles handle with
  | none => ((.badFile, 0), d)
  | some (path, _) => ((.ok, Fin.last _), d.put path (some (.file (d.data path ++ buffer))))

def rename (d : Disk) (source target : Bytes) (forceReplace : Bool) : VfsResult × Disk :=
  if !forceReplace && d.files target ≠ none then (.fileExists, d)
  else (.ok, (d.put target (d.files source)).put source none)

/-- The replies of the disk. The callback proposes the old name with a `2` behind it. -/
def reply (d : Disk) : (op : Op Bytes) → op.Reply × Disk
  | .notify n =>
    (⟨0, 1, 1, if n.info.status = .duplicate then n.info.duplicateName ++ ascii "2" else n.info.duplicateName⟩, d)
  | .getFileInfo path _ => (d.info path, d)
  | .unlink path => (.ok, d.put path none)
  | .removeDirectory path => (.ok, d.put path none)
  | .makeDirectory path => d.make path .directory
  | .createSymbolicLink path reference => d.make path (.link reference)
  | .openUri path => ((.ok, (d.openFile path).1), (d.openFile path).2)
  | .createUri path exclusive => d.create path exclusive
  | .read handle bytes => d.readFile handle bytes
  | .write handle buffer => d.writeFile handle buffer
  | .close handle => (.ok, d.bind handle none)
  | .move source target forceReplace => d.rename source target forceReplace
  | op => (calmReply op, d)

/-- The names of the disk are its objects. -/
def system : FileSystem Bytes where
  Store := Disk
  Object := Bytes
  Content := Option Node
  lookup d path := if d.files path = none then none else some path
  content d path := d.files path
  bound d handle := (d.handles handle).map Prod.fst
  below source path := path = source
  step d e d' := (e.response, d') = d.reply e.request

theorem lookup_eq_some {d : Disk} {v o : Bytes} : system.lookup d v = some o ↔ d.files v ≠ none ∧ v = o := by
  by_cases free : d.files v = none <;> simp [system, free]

theorem lookup_eq_none {d : Disk} {v : Bytes} : system.lookup d v = none ↔ d.files v = none := by
  by_cases free : d.files v = none <;> simp [system, free]

theorem kept_name {d d' : Disk} {v o : Bytes} (kept : d.files v ≠ none → d'.files v = d.files v)
    (named : system.lookup d v = some o) :
    system.lookup d' v = some o ∧ system.content d' o = system.content d o := by
  obtain ⟨taken, rfl⟩ := lookup_eq_some.mp named
  exact ⟨lookup_eq_some.mpr ⟨kept taken ▸ taken, rfl⟩, kept taken⟩

theorem put_files {d : Disk} {path v : Bytes} {node : Option Node} (other : v ≠ path) :
    (d.put path node).files v = d.files v := if_neg other

theorem put_saves {d : Disk} {path : Bytes} {node : Option Node} (free : d.files path = none) :
    system.Saves d (d.put path node) := fun v o named => by
  refine kept_name (fun taken => put_files ?_) named
  rintro rfl
  exact taken free

theorem make_existing {d d' : Disk} {path : Bytes} {node : Node} {a : VfsResult}
    (made : (a, d') = d.make path node) (taken : system.lookup d path ≠ none) : a = .fileExists ∧ d' = d := by
  rw [make, if_neg (mt lookup_eq_none.mpr taken)] at made
  exact Prod.mk.inj made

theorem make_saves {d d' : Disk} {path : Bytes} {node : Node} {a : VfsResult}
    (made : (a, d') = d.make path node) (free : system.lookup d path = none) : system.Saves d d' := by
  rw [make, if_pos (lookup_eq_none.mp free)] at made
  cases made
  exact put_saves (lookup_eq_none.mp free)

theorem saves_of_files {d d' : Disk} (same : d'.files = d.files) : system.Saves d d' :=
  fun _ _ named => kept_name (fun _ => congrFun same _) named

theorem readFile_files {d : Disk} {handle : Handle} {bytes : Nat} :
    (d.readFile handle bytes).2.files = d.files := by
  unfold readFile
  split
  · rfl
  · dsimp only
    split <;> rfl

theorem reply_files {d : Disk} {op : Op Bytes} (reads : op.reads = true) : (d.reply op).2.files = d.files := by
  cases op with
  | read handle bytes => exact readFile_files
  | unlink u => cases reads
  | removeDirectory u => cases reads
  | makeDirectory u => cases reads
  | createUri u exclusive => cases reads
  | write handle buffer => cases reads
  | createSymbolicLink u text => cases reads
  | move u v force => cases reads
  | _ => rfl

theorem readFile_bound {d : Disk} {handle : Handle} {bytes : Nat} (h : Handle) :
    ((d.readFile handle bytes).2.handles h).map Prod.fst = (d.handles h).map Prod.fst := by
  unfold readFile
  split
  · rfl
  · rename_i path position opened
    dsimp only
    split
    · rfl
    · by_cases same : h = handle <;> simp [Disk.bind, same, opened]

theorem make_handles {d : Disk} {path : Bytes} {node : Node} : (d.make path node).2.handles = d.handles := by
  unfold make
  split <;> rfl

theorem writeFile_handles {d : Disk} {handle : Handle} {buffer : Bytes} :
    (d.writeFile handle buffer).2.handles = d.handles := by
  unfold writeFile
  split <;> rfl

theorem rename_handles {d : Disk} {source target : Bytes} {forceReplace : Bool} :
    (d.rename source target forceReplace).2.handles = d.handles := by
  unfold rename
  split <;> rfl

theorem reply_bound {d : Disk} {op : Op Bytes} (quiet : op.rebinds = false) (h : Handle) :
    ((d.reply op).2.handles h).map Prod.fst = (d.handles h).map Prod.fst := by
  cases op with
  | read handle bytes => exact readFile_bound h
  | makeDirectory u => exact congrArg (fun t => (t h).map Prod.fst) make_handles
  | createSymbolicLink u text => exact congrArg (fun t => (t h).map Prod.fst) make_handles
  | write handle buffer => exact congrArg (fun t => (t h).map Prod.fst) writeFile_handles
  | move u v force => exact congrArg (fun t => (t h).map Prod.fst) rename_handles
  | openUri u => cases quiet
  | createUri u exclusive => cases quiet
  | close handle => cases quiet
  | _ => rfl

theorem system_lawful : system.Lawful where
  createUri_existing {d d' u a} created taken := by
    have there : d.files u ≠ none := mt lookup_eq_none.mpr taken
    have reply : (a, d') = ((.fileExists, 0), d) := by simpa [system, Disk.reply, create, there] using created
    cases reply
    exact ⟨rfl, rfl⟩
  createUri_new {d d' u a} created free := by
    have absent := lookup_eq_none.mp free
    have reply : (a, d') = ((.ok, d.next), ((d.put u (some (.file []))).openFile u).2) := by
      simpa [system, Disk.reply, create, absent] using created
    cases reply
    refine ⟨put_saves absent, fun _ => ⟨u, ?_, fun v named => ?_⟩⟩
    · simp [system, openFile, Disk.bind, put]
    · obtain ⟨taken, rfl⟩ := lookup_eq_some.mp named
      exact taken absent
  makeDirectory_existing := make_existing
  makeDirectory_new := make_saves
  symbolicLink_existing := make_existing
  symbolicLink_new := make_saves
  move_existing {d d' u v a} moved taken := by
    have there : d.files v ≠ none := mt lookup_eq_none.mpr taken
    have reply : (a, d') = (.fileExists, d) := by simpa [system, Disk.reply, rename, there] using moved
    exact Prod.mk.inj reply
  move_new {d d' u v a} moved free w o outside named := by
    have absent := lookup_eq_none.mp free
    have reply : (a, d') = (.ok, (d.put v (d.files u)).put u none) := by
      simpa [system, Disk.reply, rename, absent] using moved
    cases reply
    refine kept_name (fun taken => (put_files outside).trans (put_files ?_)) named
    rintro rfl
    exact taken absent
  write {d d' h buffer a} wrote v o named := by
    cases handle : d.handles h with
    | none =>
      have reply : (a, d') = ((.badFile, 0), d) := by simpa [system, Disk.reply, writeFile, handle] using wrote
      cases reply
      exact ⟨named, fun _ => rfl⟩
    | some entry =>
      have reply : (a, d') = ((.ok, Fin.last _), d.put entry.1 (some (.file (d.data entry.1 ++ buffer)))) := by
        simpa [system, Disk.reply, writeFile, handle] using wrote
      cases reply
      obtain ⟨taken, rfl⟩ := lookup_eq_some.mp named
      by_cases written : v = entry.1
      · subst written
        refine ⟨lookup_eq_some.mpr ⟨by simp [put], rfl⟩, fun other => absurd ?_ other⟩
        simp [system, handle]
      · have same : (d.put entry.1 (some (.file (d.data entry.1 ++ buffer)))).files v = d.files v :=
          put_files written
        exact ⟨lookup_eq_some.mpr ⟨fun free => taken (same.symm.trans free), rfl⟩, fun _ => same⟩
  reads {d e d'} happens reads := by
    have disk : d' = (d.reply e.request).2 := congrArg Prod.snd happens
    exact saves_of_files (disk ▸ reply_files reads)
  binds {d e d'} happens quiet h := by
    have disk : d' = (d.reply e.request).2 := congrArg Prod.snd happens
    exact disk ▸ reply_bound quiet h

/-- Every run against the disk is one of the file system. -/
theorem exec_steps {Stop α : Type} (p : Prog (Op.Reply (U := Bytes)) Stop α) (d : Disk) :
    ∃ d', system.Steps d (p.exec Disk.reply d).1 d' := by
  induction p generalizing d with
  | done a => exact ⟨d, @FileSystem.Steps.nil _ system d⟩
  | stop s => exact ⟨d, @FileSystem.Steps.nil _ system d⟩
  | ask op k ih =>
    obtain ⟨d', steps⟩ := ih (d.reply op).1 (d.reply op).2
    exact ⟨d', .cons rfl steps⟩

/-- A file `/a` and a directory `/t` with another file of that name. -/
def twoFiles : Disk where
  files path :=
    if path = ascii "/a" then some (.file (ascii "new"))
    else if path = ascii "/t/a" then some (.file (ascii "old"))
    else if path = ascii "/t" then some .directory
    else none
  handles _ := none
  next := 1

end Disk

/-- Copying `/a` to the taken name `/t/a`. -/
def copyToTaken : Prog (Op.Reply (U := Bytes)) Stop (VfsResult × State) :=
  UniqueCall.run (plainConfig { useUniqueNames := true }) 3
    (.copyItems [ascii "/a"] [ascii "/t/a"] .replace) { overwriteMode := .replace }

theorem uniqueCall_keeps_objects_copy : ∃ trace s after,
    Runs copyToTaken trace (.returned (.ok, s)) ∧ Disk.system.Steps Disk.twoFiles trace after ∧
    Disk.system.lookup after (ascii "/t/a") = some (ascii "/t/a") ∧
    Disk.system.content after (ascii "/t/a") = some (.file (ascii "old")) := by
  have run := Prog.exec_runs Disk.reply copyToTaken Disk.twoFiles
  obtain ⟨s, ok⟩ : ∃ s, (copyToTaken.exec Disk.reply Disk.twoFiles).2 = .returned (.ok, s) :=
    Outcome.returned_of_meets (by decide +kernel)
  obtain ⟨after, steps⟩ := Disk.exec_steps copyToTaken Disk.twoFiles
  have kept := uniqueCall_keeps_objects Disk.system Disk.system_lawful _ rfl 3 _ _ _ _ run _ _ steps
    (ascii "/t/a") (ascii "/t/a") rfl (by simp [UniqueCall.moved])
  exact ⟨_, s, after, ok ▸ run, steps, kept.1, kept.2⟩

end GnomeVfs.Xfer
