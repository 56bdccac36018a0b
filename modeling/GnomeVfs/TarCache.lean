import GnomeVfs.TarListing
import GnomeVfs.Transition
import Mathlib.Data.List.Perm.Basic
import Mathlib.Logic.Function.Basic

/- The cache of the tar method: archives that are open, and the references to them. -/
namespace GnomeVfs.Tar.Cache

section Model

variable {Method : Type}

/-- `TarFile`, with its count of references. -/
structure CachedTar where
  file : TarFile
  refCount : CInt

/-- `FileHandle`, with the `TarFile` it refers to. -/
structure OpenFile where
  tar : Nat
  file : FileHandle

/-- The cache, the archives in memory, the handles that are open, and whether `tar_cache` is locked. An archive that has
been freed is in memory no more. -/
structure State where
  cache : Bytes → Option Nat
  tars : Nat → Option CachedTar
  made : Nat
  handles : List OpenFile
  locked : Bool

def State.new : State := ⟨fun _ => none, fun _ => none, 0, [], false⟩

/-- What comes of opening an archive and reading it. An archive in another one is waited for without end: opening it takes
the lock again. -/
inductive Opening where
  | failed | read (blocks : List Block) | waits

/-- What is outside of the cache in one call. -/
structure Outside where
  opening : Opening
  around : Around
  guess : MimeGuess

def State.recount (s : State) (id : Nat) (tar : CachedTar) (refCount : CInt) : State :=
  { s with tars := Function.update s.tars id (some { tar with refCount := refCount }) }

/-- An archive that was not in the cache. -/
def State.insert (s : State) (key : Bytes) (blocks : List Block) : State :=
  { s with
    cache := Function.update s.cache key (some s.made)
    tars := Function.update s.tars s.made (some ⟨readTarFile key blocks, toCInt 1⟩)
    made := s.made + 1 }

/-- `ensure_tarfile`. Nothing comes back of a call that waits for the lock, or that reads what has been freed. -/
def State.ensureTarfile (s : State) (parent : Uri Method) (opening : Opening) : Option (State × Option Nat) :=
  if s.locked then none
  else
    match s.cache (uriToString .none parent) with
    | some id =>
      (s.tars id).bind fun tar => (checked (tar.refCount + 1)).map fun refCount => (s.recount id tar refCount, some id)
    | none =>
      match opening with
      | .waits => none
      | .failed => some ({ s with locked := true }, none)
      | .read blocks => some (s.insert (uriToString .none parent) blocks, some s.made)

/-- `tar_file_unref`. -/
def State.tarFileUnref (s : State) (id : Nat) : Option State :=
  (s.tars id).bind fun tar =>
    if tar.refCount - 1 < (0 : Int) then
      if s.locked then none
      else some { s with cache := Function.update s.cache tar.file.filename none, tars := Function.update s.tars id none }
    else some (s.recount id tar (toCInt (tar.refCount - 1)))

/-- `do_open`. -/
def State.doOpen (s : State) (uri : Uri Method) (outside : Outside) : Option (State × VfsResult) :=
  match uri.parent with
  | none => some (s, .invalidUri)
  | some parent =>
    (s.ensureTarfile parent outside.opening).bind fun ensured =>
      match ensured.2 with
      | none => some (ensured.1, .badFile)
      | some id =>
        (ensured.1.tars id).bind fun tar => uri.element.text.bind fun text =>
          match Tar.doOpen tar.file outside.around.stray text with
          | .error .notFound => (ensured.1.tarFileUnref id).map fun s => (s, .notFound)
          | .error result => some (ensured.1, result)
          | .ok file => some ({ ensured.1 with handles := ensured.1.handles ++ [⟨id, file⟩] }, .ok)

/-- `do_open_directory`, which does not look whether there is an archive. -/
def State.doOpenDirectory (s : State) (uri : Uri Method) (outside : Outside) : Option (State × VfsResult) :=
  match uri.parent with
  | none => some (s, .invalidUri)
  | some parent =>
    (s.ensureTarfile parent outside.opening).bind fun ensured => ensured.2.bind fun id =>
      (ensured.1.tars id).bind fun tar =>
        match Tar.doOpenDirectory outside.around tar.file uri.element.text with
        | .error .notFound => (ensured.1.tarFileUnref id).map fun s => (s, .notFound)
        | .error result => some (ensured.1, result)
        | .ok file => some ({ ensured.1 with handles := ensured.1.handles ++ [⟨id, file⟩] }, .ok)

/-- `do_get_file_info`, likewise. -/
def State.doGetFileInfo (s : State) (uri : Uri Method) (options : InfoOptions) (outside : Outside) :
    Option (State × Except VfsResult FileInfo) :=
  match uri.parent with
  | none => some (s, .error .invalidUri)
  | some parent =>
    (s.ensureTarfile parent outside.opening).bind fun ensured => ensured.2.bind fun id =>
      (ensured.1.tars id).bind fun tar => (ensured.1.tarFileUnref id).map fun s =>
        (s, (Tar.doGetFileInfo outside.around outside.guess tar.file (uriToString .none uri) uri.element.text options).map Prod.snd)

/-- `file_handle_unref`, with which `do_close` and `do_close_directory` do all they do. -/
def State.fileHandleUnref (s : State) (handle : Nat) : Option State :=
  s.handles[handle]?.bind fun file => (s.tarFileUnref file.tar).map fun s => { s with handles := s.handles.eraseIdx handle }

def State.doClose (s : State) (handle : Nat) : Option (State × VfsResult) := (s.fileHandleUnref handle).map fun s => (s, .ok)

def State.doCloseDirectory (s : State) (handle : Nat) : Option (State × VfsResult) :=
  (s.fileHandleUnref handle).map fun s => (s, .ok)

/-- The calls. A handle is told by its place among those that are open. -/
inductive Call (Method : Type) where
  | open (uri : Uri Method) (outside : Outside)
  | openDirectory (uri : Uri Method) (outside : Outside)
  | getFileInfo (uri : Uri Method) (options : InfoOptions) (outside : Outside)
  | close (handle : Nat)
  | closeDirectory (handle : Nat)

def step (s : State) : Call Method → Option State
  | .open uri outside => (s.doOpen uri outside).map Prod.fst
  | .openDirectory uri outside => (s.doOpenDirectory uri outside).map Prod.fst
  | .getFileInfo uri options outside => (s.doGetFileInfo uri options outside).map Prod.fst
  | .close handle => (s.doClose handle).map Prod.fst
  | .closeDirectory handle => (s.doCloseDirectory handle).map Prod.fst

/-- How many handles are open on an archive. -/
def State.openOn (s : State) (id : Nat) : Nat := s.handles.countP fun h => h.tar = id

/-- After a call the lock is free, the references to each archive in the cache are the handles open on it, and no handle
refers to an archive that has been freed. -/
def State.InOrder (s : State) : Prop :=
  s.locked = false ∧ (∀ key id tar, s.cache key = some id → s.tars id = some tar → (tar.refCount : Int) = s.openOn id) ∧
    ∀ h ∈ s.handles, s.tars h.tar ≠ none

/-- The archive that a call gets: it is in the cache, where one more reference can be counted, or it can be opened. -/
def State.archive (s : State) (parent : Uri Method) (opening : Opening) : Option TarFile :=
  if s.locked then none
  else
    match s.cache (uriToString .none parent) with
    | some id => (s.tars id).bind fun tar => if (tar.refCount + 1 : Int) < 2 ^ 31 then some tar.file else none
    | none =>
      match opening with
      | .read blocks => some (readTarFile (uriToString .none parent) blocks)
      | _ => none

/-- That the archive can be opened and the member, if there is one, is of the right kind; and that a handle to be closed
is open. -/
def State.careful (s : State) : Call Method → Prop
  | .open uri outside => ∀ parent, uri.parent = some parent →
      ∃ tar text, s.archive parent outside.opening = some tar ∧ uri.element.text = some text ∧
        ∀ node, treeLookupEntry tar.blocks tar.infoTree outside.around.stray text = some node →
          (nodeName tar.blocks tar.infoTree node).getLast? ≠ some chrSlash
  | .openDirectory uri outside => ∀ parent, uri.parent = some parent →
      ∃ tar, s.archive parent outside.opening = some tar ∧ ∀ text node, uri.element.text = some text →
        treeLookupEntry tar.blocks tar.infoTree outside.around.stray text = some node →
          (nodeName tar.blocks tar.infoTree node).getLast? = some chrSlash
  | .getFileInfo uri _ outside => ∀ parent, uri.parent = some parent → ∃ tar, s.archive parent outside.opening = some tar
  | .close handle => handle < s.handles.length
  | .closeDirectory handle => handle < s.handles.length

end Model

section Books

variable {Method : Type} {s t : State} {id : Nat} {tar : CachedTar}

/-- The references to an archive that no handle stands for. -/
def State.owed (s : State) (id : Nat) : Int :=
  match s.tars id with
  | none => 0
  | some tar => tar.refCount - s.openOn id

theorem State.owed_some (there : s.tars id = some tar) : s.owed id = tar.refCount - s.openOn id := by
  rw [State.owed, there]

theorem State.owed_none (gone : s.tars id = none) : s.owed id = 0 := by rw [State.owed, gone]

/-- The archives in memory are those in the cache, each under its own name, and those of the handles are among them. -/
structure State.Linked (s : State) : Prop where
  cached : ∀ key id, s.cache key = some id → ∃ tar, s.tars id = some tar
  listed : ∀ id tar, s.tars id = some tar → s.cache tar.file.filename = some id
  kept : ∀ h ∈ s.handles, ∃ tar, s.tars h.tar = some tar
  fresh : ∀ id, s.made ≤ id → s.tars id = none

theorem State.Linked.new : State.new.Linked where
  cached := fun _ _ wrong => by cases wrong
  listed := fun _ _ wrong => by cases wrong
  kept := fun _ wrong => by cases wrong
  fresh := fun _ _ => rfl

theorem State.Linked.openOn_zero (linked : s.Linked) (gone : s.tars id = none) : s.openOn id = 0 := by
  rw [State.openOn, List.countP_eq_zero]
  intro h member same
  obtain ⟨tar, there⟩ := linked.kept h member
  rw [of_decide_eq_true same, gone] at there
  cases there

theorem State.recount_self (s : State) (id : Nat) (tar : CachedTar) (refCount : CInt) :
    (s.recount id tar refCount).tars id = some { tar with refCount := refCount } := Function.update_self ..

theorem State.recount_other {j : Nat} (other : j ≠ id) (refCount : CInt) : (s.recount id tar refCount).tars j = s.tars j :=
  Function.update_of_ne other ..

theorem State.insert_self (s : State) (key : Bytes) (blocks : List Block) :
    (s.insert key blocks).tars s.made = some ⟨readTarFile key blocks, toCInt 1⟩ := Function.update_self ..

theorem State.insert_other (other : id ≠ s.made) (key : Bytes) (blocks : List Block) :
    (s.insert key blocks).tars id = s.tars id := Function.update_of_ne other ..

theorem State.insert_cache_self (s : State) (key : Bytes) (blocks : List Block) :
    (s.insert key blocks).cache key = some s.made := Function.update_self ..

theorem State.insert_cache_other {key key' : Bytes} (other : key' ≠ key) (blocks : List Block) :
    (s.insert key blocks).cache key' = s.cache key' := Function.update_of_ne other ..

theorem State.Linked.recount (linked : s.Linked) (there : s.tars id = some tar) (refCount : CInt) :
    (s.recount id tar refCount).Linked where
  cached := fun key other cached => by
    by_cases same : other = id
    · rw [same]
      exact ⟨_, s.recount_self id tar refCount⟩
    · obtain ⟨tar', found⟩ := linked.cached key other cached
      exact ⟨tar', (State.recount_other same refCount).trans found⟩
  listed := fun other tar' found => by
    by_cases same : other = id
    · subst same
      rw [State.recount_self] at found
      cases found
      exact linked.listed other tar there
    · exact linked.listed other tar' ((State.recount_other same refCount).symm.trans found)
  kept := fun h member => by
    by_cases same : h.tar = id
    · rw [same]
      exact ⟨_, s.recount_self id tar refCount⟩
    · obtain ⟨tar', found⟩ := linked.kept h member
      exact ⟨tar', (State.recount_other same refCount).trans found⟩
  fresh := fun other new => by
    have same : other ≠ id := by
      rintro rfl
      rw [linked.fresh other new] at there
      cases there
    exact (State.recount_other same refCount).trans (linked.fresh other new)

theorem State.owed_recount (there : s.tars id = some tar) (refCount : CInt) (j : Nat) :
    (s.recount id tar refCount).owed j = s.owed j + if j = id then (refCount - tar.refCount : Int) else 0 := by
  by_cases same : j = id
  · subst same
    rw [State.owed_some (s.recount_self j tar refCount), State.owed_some there, if_pos rfl]
    show (refCount : Int) - s.openOn j = _
    omega
  · rw [if_neg same, State.owed, State.recount_other same, Int.add_zero]
    rfl

theorem State.Linked.insert (linked : s.Linked) {key : Bytes} (absent : s.cache key = none) (blocks : List Block) :
    (s.insert key blocks).Linked where
  cached := fun other id cached => by
    by_cases same : id = s.made
    · rw [same]
      exact ⟨_, s.insert_self key blocks⟩
    · have here : other ≠ key := by
        rintro rfl
        rw [State.insert_cache_self] at cached
        exact same (Option.some.inj cached).symm
      obtain ⟨tar, found⟩ := linked.cached other id ((State.insert_cache_other here blocks).symm.trans cached)
      exact ⟨tar, (State.insert_other same key blocks).trans found⟩
  listed := fun id tar found => by
    by_cases same : id = s.made
    · subst same
      rw [State.insert_self] at found
      cases found
      exact s.insert_cache_self key blocks
    · have before := linked.listed id tar ((State.insert_other same key blocks).symm.trans found)
      have here : tar.file.filename ≠ key := by
        intro wrong
        rw [wrong, absent] at before
        cases before
      exact (State.insert_cache_other here blocks).trans before
  kept := fun h member => by
    by_cases same : h.tar = s.made
    · rw [same]
      exact ⟨_, s.insert_self key blocks⟩
    · obtain ⟨tar, found⟩ := linked.kept h member
      exact ⟨tar, (State.insert_other same key blocks).trans found⟩
  fresh := fun id new => by
    have later : s.made + 1 ≤ id := new
    exact (State.insert_other (by omega) key blocks).trans (linked.fresh id (by omega))

theorem State.Linked.owed_insert (linked : s.Linked) (key : Bytes) (blocks : List Block) (j : Nat) :
    (s.insert key blocks).owed j = s.owed j + if j = s.made then 1 else 0 := by
  by_cases same : j = s.made
  · subst same
    have absent := linked.fresh s.made (Nat.le_refl _)
    have none_open : (s.insert key blocks).openOn s.made = 0 := linked.openOn_zero absent
    rw [State.owed_some (s.insert_self key blocks), none_open, State.owed_none absent, if_pos rfl,
      toCInt_of_lt (by omega) (by omega)]
    rfl
  · rw [if_neg same, State.owed, State.insert_other same, Int.add_zero]
    rfl

/-- What a call did that took a reference to this archive and has done nothing with it yet. -/
structure State.Took (s t : State) (id : Nat) (tar : CachedTar) : Prop where
  linked : t.Linked
  there : t.tars id = some tar
  locked : t.locked = s.locked
  owed : ∀ j, t.owed j = s.owed j + if j = id then 1 else 0

theorem State.Linked.took_recount (linked : s.Linked) (there : s.tars id = some tar) {refCount : CInt}
    (one_more : (refCount : Int) = tar.refCount + 1) :
    s.Took (s.recount id tar refCount) id { tar with refCount := refCount } where
  linked := linked.recount there refCount
  there := s.recount_self id tar refCount
  locked := rfl
  owed := fun j => by
    have one : (refCount - tar.refCount : Int) = 1 := by omega
    rw [State.owed_recount there, one]

theorem State.Linked.took_insert (linked : s.Linked) {key : Bytes} (absent : s.cache key = none) (blocks : List Block) :
    s.Took (s.insert key blocks) s.made ⟨readTarFile key blocks, toCInt 1⟩ where
  linked := linked.insert absent blocks
  there := s.insert_self key blocks
  locked := rfl
  owed := linked.owed_insert key blocks

/-- The archive that is there is taken, and otherwise nothing is got but the lock, at most. -/
theorem ensureTarfile_spec (linked : s.Linked) (parent : Uri Method) (opening : Opening) :
    (∃ t id tar, s.ensureTarfile parent opening = some (t, some id) ∧ s.archive parent opening = some tar.file ∧ s.Took t id tar) ∨
      (s.archive parent opening = none ∧
        (s.ensureTarfile parent opening = none ∨ s.ensureTarfile parent opening = some ({ s with locked := true }, none))) := by
  unfold State.ensureTarfile State.archive
  cases s.locked with
  | true => exact Or.inr ⟨rfl, Or.inl rfl⟩
  | false =>
    rw [if_neg Bool.false_ne_true, if_neg Bool.false_ne_true]
    cases known : s.cache (uriToString .none parent) with
    | some id =>
      obtain ⟨tar, there⟩ := linked.cached _ id known
      dsimp only
      rw [there, Option.bind_some, Option.bind_some]
      by_cases fits : (tar.refCount + 1 : Int) < 2 ^ 31
      · have range : -2 ^ 31 ≤ (tar.refCount + 1 : Int) ∧ (tar.refCount + 1 : Int) < 2 ^ 31 := by
          have := tar.refCount.property
          omega
        rw [checked, dif_pos range, if_pos fits]
        exact Or.inl ⟨_, id, { tar with refCount := ⟨_, range⟩ }, rfl, rfl, linked.took_recount there rfl⟩
      · rw [checked, dif_neg fun range => fits range.2, if_neg fits]
        exact Or.inr ⟨rfl, Or.inl rfl⟩
    | none =>
      cases opening with
      | failed => exact Or.inr ⟨rfl, Or.inr rfl⟩
      | read blocks => exact Or.inl ⟨_, s.made, _, rfl, rfl, linked.took_insert known blocks⟩
      | waits => exact Or.inr ⟨rfl, Or.inl rfl⟩

theorem tarFileUnref_eq (there : t.tars id = some tar) (held : (1 : Int) ≤ tar.refCount) :
    t.tarFileUnref id = some (t.recount id tar (toCInt (tar.refCount - 1))) := by
  rw [State.tarFileUnref, there, Option.bind_some, if_neg (by omega)]

theorem toCInt_pred (c : CInt) (held : (1 : Int) ≤ c) : (toCInt (c - 1) : Int) = c - 1 := by
  have := c.property
  exact toCInt_of_lt (by omega) (by omega)

/-- A call that returns leaves no reference and no lock behind. -/
structure State.Keeps (s t : State) : Prop where
  linked : t.Linked
  locked : t.locked = s.locked
  owed : t.owed = s.owed

/-- A call that returns leaves the lock taken, or a reference that no handle stands for. -/
structure State.Spoils (s t : State) : Prop where
  linked : t.Linked
  owed : ∀ j, s.owed j ≤ t.owed j
  spoilt : t.locked = true ∨ ∃ j, s.owed j < t.owed j

/-- What is left behind, by whether the call was a good one. -/
def Outcome {ρ : Type} (s : State) (good : Prop) (returned : Option (State × ρ)) : Prop :=
  (good ∧ ∃ t result, returned = some (t, result) ∧ s.Keeps t) ∨
    (¬ good ∧ ∀ t result, returned = some (t, result) → s.Spoils t)

theorem State.Linked.keeps (linked : s.Linked) : s.Keeps s := ⟨linked, rfl, rfl⟩

theorem State.Linked.spoils_locked (linked : s.Linked) : s.Spoils { s with locked := true } :=
  ⟨⟨linked.cached, linked.listed, linked.kept, linked.fresh⟩, fun _ => Int.le_refl _, Or.inl rfl⟩

theorem State.Took.spoils (took : s.Took t id tar) : s.Spoils t where
  linked := took.linked
  owed := fun j => by
    rw [took.owed]
    split <;> omega
  spoilt := Or.inr ⟨id, by rw [took.owed, if_pos rfl]; omega⟩

/-- The reference is given back. -/
theorem State.Took.unref (took : s.Took t id tar) (counted : ∀ j, 0 ≤ s.owed j) :
    ∃ u, t.tarFileUnref id = some u ∧ s.Keeps u := by
  have held : (1 : Int) ≤ tar.refCount := by
    have owed := took.owed id
    rw [State.owed_some took.there, if_pos rfl] at owed
    have := counted id
    omega
  refine ⟨_, tarFileUnref_eq took.there held, took.linked.recount took.there _, took.locked, funext fun j => ?_⟩
  rw [State.owed_recount took.there, took.owed, toCInt_pred _ held]
  split <;> omega

theorem State.Took.handle (took : s.Took t id tar) (file : FileHandle) :
    s.Keeps { t with handles := t.handles ++ [⟨id, file⟩] } where
  linked :=
    { cached := took.linked.cached
      listed := took.linked.listed
      kept := fun h member => by
        obtain before | new := List.mem_append.mp member
        · exact took.linked.kept h before
        · rw [List.mem_singleton.mp new]
          exact ⟨tar, took.there⟩
      fresh := took.linked.fresh }
  locked := took.locked
  owed := by
    funext j
    have owed := took.owed j
    rw [State.owed] at owed ⊢
    dsimp only
    cases found : t.tars j with
    | none =>
      have other : j ≠ id := by
        rintro rfl
        rw [took.there] at found
        cases found
      rw [found, if_neg other, Int.add_zero] at owed
      exact owed
    | some tar' =>
      rw [found] at owed
      dsimp only at owed ⊢
      rw [State.openOn] at owed ⊢
      rw [List.countP_append, List.countP_singleton]
      by_cases same : id = j
      · rw [if_pos same.symm] at owed
        rw [if_pos (decide_eq_true same)]
        omega
      · rw [if_neg (Ne.symm same)] at owed
        rw [if_neg fun wrong => same (of_decide_eq_true wrong)]
        omega

/-- A handle goes, and its reference with it. -/
theorem fileHandleUnref_spec (linked : s.Linked) (counted : ∀ j, 0 ≤ s.owed j) (handle : Nat) :
    Outcome s (handle < s.handles.length) ((s.fileHandleUnref handle).map fun t => (t, VfsResult.ok)) := by
  by_cases inside : handle < s.handles.length
  · left
    obtain ⟨tar, there⟩ := linked.kept _ (List.getElem_mem inside)
    have perm := List.getElem_cons_eraseIdx_perm inside
    have open_before (j : Nat) : s.openOn j =
        (s.handles.eraseIdx handle).countP (fun h => h.tar = j) + if s.handles[handle].tar = j then 1 else 0 := by
      rw [State.openOn, ← perm.countP_eq, List.countP_cons]
      simp only [decide_eq_true_eq]
    have held : (1 : Int) ≤ tar.refCount := by
      have owed := counted s.handles[handle].tar
      rw [State.owed_some there, open_before, if_pos rfl] at owed
      omega
    rw [State.fileHandleUnref, List.getElem?_eq_getElem inside, Option.bind_some, tarFileUnref_eq there held]
    refine ⟨inside, _, _, rfl, ?_, rfl, funext fun j => ?_⟩
    · have after := linked.recount there (toCInt (tar.refCount - 1))
      exact ⟨after.cached, after.listed, fun h member => after.kept h (List.mem_of_mem_eraseIdx member), after.fresh⟩
    · rw [State.owed, State.owed]
      dsimp only
      by_cases same : s.handles[handle].tar = j
      · have less := toCInt_pred _ held
        rw [← same, State.recount_self, there]
        dsimp only
        rw [open_before, if_pos rfl]
        show (toCInt (tar.refCount - 1) : Int) -
          ((s.handles.eraseIdx handle).countP fun h => h.tar = s.handles[handle].tar : Nat) = _
        omega
      · rw [State.recount_other (Ne.symm same)]
        cases s.tars j with
        | none => rfl
        | some tar' =>
          dsimp only
          rw [open_before, if_neg same, State.openOn]
          rfl
  · right
    refine ⟨inside, fun t result returned => ?_⟩
    rw [State.fileHandleUnref, List.getElem?_eq_none (by omega)] at returned
    cases returned

/-- A call that takes a reference first. -/
theorem Outcome.ensure {ρ : Type} (linked : s.Linked) {parent : Uri Method} {opening : Opening}
    {later : State × Option Nat → Option (State × ρ)} {G : TarFile → Prop}
    (without : ∀ t result, later ({ s with locked := true }, none) = some (t, result) → s.Spoils t)
    (following : ∀ t id tar, s.Took t id tar → Outcome s (G tar.file) (later (t, some id))) :
    Outcome s (∃ tar, s.archive parent opening = some tar ∧ G tar) ((s.ensureTarfile parent opening).bind later) := by
  obtain ⟨t, id, tar, ensured, archive, took⟩ | ⟨archive, ensured | ensured⟩ := ensureTarfile_spec linked parent opening
  · rw [ensured, Option.bind_some, archive]
    obtain ⟨fine, kept⟩ | ⟨bad, spoilt⟩ := following t id tar took
    · exact Or.inl ⟨⟨_, rfl, fine⟩, kept⟩
    · refine Or.inr ⟨fun fine => ?_, spoilt⟩
      obtain ⟨tar', same, fine⟩ := fine
      cases same
      exact bad fine
  · rw [ensured, archive]
    refine Or.inr ⟨fun fine => ?_, fun t result wrong => (by cases wrong)⟩
    obtain ⟨tar', same, -⟩ := fine
    cases same
  · rw [ensured, archive, Option.bind_some]
    refine Or.inr ⟨fun fine => ?_, without⟩
    obtain ⟨tar', same, -⟩ := fine
    cases same

theorem Outcome.congr {ρ : Type} {good good' : Prop} {returned : Option (State × ρ)} (outcome : Outcome s good returned)
    (same : good ↔ good') : Outcome s good' returned := by
  rw [← same]
  exact outcome

theorem Outcome.returns {ρ : Type} (kept : s.Keeps t) (result : ρ) {good : Prop} (fine : good) :
    Outcome s good (some (t, result)) := Or.inl ⟨fine, t, result, rfl, kept⟩

theorem Outcome.leaves {ρ : Type} (spoilt : s.Spoils t) (result : ρ) {good : Prop} (bad : ¬ good) :
    Outcome s good (some (t, result)) := by
  refine Or.inr ⟨bad, fun u result' returned => ?_⟩
  cases returned
  exact spoilt

theorem Outcome.unref {ρ : Type} (took : s.Took t id tar) (counted : ∀ j, 0 ≤ s.owed j) (result : ρ) {good : Prop}
    (fine : good) : Outcome s good ((t.tarFileUnref id).map fun u => (u, result)) := by
  obtain ⟨u, given_back, kept⟩ := took.unref counted
  rw [given_back]
  exact Outcome.returns kept result fine

theorem doGetFileInfo_spec (linked : s.Linked) (counted : ∀ j, 0 ≤ s.owed j) (uri : Uri Method) (options : InfoOptions)
    (outside : Outside) : Outcome s (s.careful (.getFileInfo uri options outside)) (s.doGetFileInfo uri options outside) := by
  rw [State.doGetFileInfo, State.careful]
  cases uri.parent with
  | none => exact Outcome.returns linked.keeps _ fun _ wrong => by cases wrong
  | some parent =>
    refine (Outcome.ensure (G := fun _ => True) linked (fun t result wrong => (by cases wrong)) fun t id tar took => ?_).congr ?_
    · dsimp only
      rw [Option.bind_some, took.there, Option.bind_some]
      exact Outcome.unref took counted _ True.intro
    · simp only [and_true, Option.some.injEq, forall_eq']

theorem doOpen_found {file : TarFile} {stray : UInt8} {text : Bytes} {node : Nat}
    (found : treeLookupEntry file.blocks file.infoTree stray text = some node) :
    ((nodeName file.blocks file.infoTree node).getLast? = some chrSlash ∧ Tar.doOpen file stray text = .error .isDirectory) ∨
      ((nodeName file.blocks file.infoTree node).getLast? ≠ some chrSlash ∧ ∃ h, Tar.doOpen file stray text = .ok h) := by
  rw [Tar.doOpen, found]
  by_cases slash : (nodeName file.blocks file.infoTree node).getLast? = some chrSlash
  · exact Or.inl ⟨slash, if_pos slash⟩
  · exact Or.inr ⟨slash, _, if_neg slash⟩

theorem doOpen_spec (linked : s.Linked) (counted : ∀ j, 0 ≤ s.owed j) (uri : Uri Method) (outside : Outside) :
    Outcome s (s.careful (.open uri outside)) (s.doOpen uri outside) := by
  rw [State.doOpen, State.careful]
  cases uri.parent with
  | none => exact Outcome.returns linked.keeps _ fun _ wrong => by cases wrong
  | some parent =>
    refine (Outcome.ensure (G := fun tar => ∃ text, uri.element.text = some text ∧
      ∀ node, treeLookupEntry tar.blocks tar.infoTree outside.around.stray text = some node →
        (nodeName tar.blocks tar.infoTree node).getLast? ≠ some chrSlash) linked (fun t result badFile => ?_)
          fun t id tar took => ?_).congr ?_
    · cases badFile
      exact linked.spoils_locked
    · dsimp only
      rw [took.there, Option.bind_some]
      cases uri.element.text with
      | none =>
        refine Or.inr ⟨fun fine => ?_, fun t result wrong => (by cases wrong)⟩
        obtain ⟨text, wrong, -⟩ := fine
        cases wrong
      | some text =>
        rw [Option.bind_some]
        cases found : treeLookupEntry tar.file.blocks tar.file.infoTree outside.around.stray text with
        | none =>
          have absent : Tar.doOpen tar.file outside.around.stray text = .error .notFound := by rw [Tar.doOpen, found]
          rw [absent]
          refine Outcome.unref took counted _ ⟨text, rfl, fun node wrong => ?_⟩
          rw [found] at wrong
          cases wrong
        | some node =>
          obtain ⟨slash, directory⟩ | ⟨plain, h, opened⟩ := doOpen_found found
          · rw [directory]
            refine Outcome.leaves took.spoils _ fun fine => ?_
            obtain ⟨text', same, other⟩ := fine
            cases same
            exact other node found slash
          · rw [opened]
            refine Outcome.returns (took.handle h) _ ⟨text, rfl, fun node' found' => ?_⟩
            rw [found] at found'
            cases found'
            exact plain
    · simp only [Option.some.injEq, forall_eq', exists_and_left]

theorem doOpenDirectory_root (around : Around) (file : TarFile) : ∃ h, Tar.doOpenDirectory around file none = .ok h := by
  unfold Tar.doOpenDirectory directoryNode
  dsimp only
  exact ⟨_, if_neg fun wrong => by cases wrong.1⟩

theorem doOpenDirectory_found {around : Around} {file : TarFile} {text : Bytes} {node : Nat}
    (found : treeLookupEntry file.blocks file.infoTree around.stray text = some node) :
    ((nodeName file.blocks file.infoTree node).getLast? ≠ some chrSlash ∧
        Tar.doOpenDirectory around file (some text) = .error .notADirectory) ∨
      ((nodeName file.blocks file.infoTree node).getLast? = some chrSlash ∧
        ∃ h, Tar.doOpenDirectory around file (some text) = .ok h) := by
  have directory : directoryNode around file (some text) = some (some node) := congrArg (Option.map some) found
  rw [Tar.doOpenDirectory, directory]
  by_cases slash : (nodeName file.blocks file.infoTree node).getLast? = some chrSlash
  · exact Or.inr ⟨slash, _, if_neg fun wrong => wrong.2 slash⟩
  · exact Or.inl ⟨slash, if_pos ⟨rfl, slash⟩⟩

theorem doOpenDirectory_spec (linked : s.Linked) (counted : ∀ j, 0 ≤ s.owed j) (uri : Uri Method) (outside : Outside) :
    Outcome s (s.careful (.openDirectory uri outside)) (s.doOpenDirectory uri outside) := by
  rw [State.doOpenDirectory, State.careful]
  cases uri.parent with
  | none => exact Outcome.returns linked.keeps _ fun _ wrong => by cases wrong
  | some parent =>
    refine (Outcome.ensure (G := fun tar => ∀ text node, uri.element.text = some text →
      treeLookupEntry tar.blocks tar.infoTree outside.around.stray text = some node →
        (nodeName tar.blocks tar.infoTree node).getLast? = some chrSlash) linked (fun t result wrong => (by cases wrong))
          fun t id tar took => ?_).congr ?_
    · dsimp only
      rw [Option.bind_some, took.there, Option.bind_some]
      cases uri.element.text with
      | none =>
        obtain ⟨h, opened⟩ := doOpenDirectory_root outside.around tar.file
        rw [opened]
        exact Outcome.returns (took.handle h) _ fun text node wrong => by cases wrong
      | some text =>
        cases found : treeLookupEntry tar.file.blocks tar.file.infoTree outside.around.stray text with
        | none =>
          have directory : directoryNode outside.around tar.file (some text) = none := congrArg (Option.map some) found
          have absent : Tar.doOpenDirectory outside.around tar.file (some text) = .error .notFound := by
            rw [Tar.doOpenDirectory, directory]
          rw [absent]
          refine Outcome.unref took counted _ fun text' node same wrong => ?_
          cases same
          rw [found] at wrong
          cases wrong
        | some node =>
          obtain ⟨plain, other⟩ | ⟨slash, h, opened⟩ := doOpenDirectory_found found
          · rw [other]
            exact Outcome.leaves took.spoils _ fun fine => plain (fine text node rfl found)
          · rw [opened]
            refine Outcome.returns (took.handle h) _ fun text' node' same found' => ?_
            cases same
            rw [found] at found'
            cases found'
            exact slash
    · simp only [Option.some.injEq, forall_eq']

theorem Outcome.step {ρ : Type} {good : Prop} {returned : Option (State × ρ)} (outcome : Outcome s good returned) :
    (good ∧ ∃ t, returned.map Prod.fst = some t ∧ s.Keeps t) ∨ (¬ good ∧ ∀ t, returned.map Prod.fst = some t → s.Spoils t) := by
  obtain ⟨fine, t, result, same, kept⟩ | ⟨bad, spoilt⟩ := outcome
  · exact Or.inl ⟨fine, t, by rw [same]; rfl, kept⟩
  · refine Or.inr ⟨bad, fun t same => ?_⟩
    obtain ⟨⟨u, result⟩, back, rfl⟩ := Option.map_eq_some_iff.mp same
    exact spoilt u result back

theorem step_spec (linked : s.Linked) (counted : ∀ j, 0 ≤ s.owed j) (call : Call Method) :
    (s.careful call ∧ ∃ t, step s call = some t ∧ s.Keeps t) ∨
      (¬ s.careful call ∧ ∀ t, step s call = some t → s.Spoils t) := by
  cases call with
  | «open» uri outside => exact (doOpen_spec linked counted uri outside).step
  | openDirectory uri outside => exact (doOpenDirectory_spec linked counted uri outside).step
  | getFileInfo uri options outside => exact (doGetFileInfo_spec linked counted uri options outside).step
  | close handle => exact (fileHandleUnref_spec linked counted handle).step
  | closeDirectory handle => exact (fileHandleUnref_spec linked counted handle).step

/-- What holds after any calls at all: no reference is given back that is still needed. -/
structure State.Covered (s : State) : Prop where
  linked : s.Linked
  counted : ∀ j, 0 ≤ s.owed j

theorem State.Covered.new : State.new.Covered := ⟨State.Linked.new, fun _ => Int.le_refl _⟩

theorem State.Covered.step (covered : s.Covered) {call : Call Method} (stepped : step s call = some t) : t.Covered := by
  obtain ⟨-, u, same, kept⟩ | ⟨-, spoilt⟩ := step_spec covered.linked covered.counted call
  · rw [stepped] at same
    cases same
    refine ⟨kept.linked, fun j => ?_⟩
    rw [kept.owed]
    exact covered.counted j
  · have spoilt := spoilt t stepped
    exact ⟨spoilt.linked, fun j => Int.le_trans (covered.counted j) (spoilt.owed j)⟩

/-- What holds after careful calls: every reference is one of a handle, and the lock is free. -/
structure State.Settled (s : State) : Prop where
  linked : s.Linked
  locked : s.locked = false
  owed : ∀ j, s.owed j = 0

theorem State.Settled.new : State.new.Settled := ⟨State.Linked.new, rfl, fun _ => rfl⟩

theorem State.Settled.counted (settled : s.Settled) (j : Nat) : 0 ≤ s.owed j := by
  rw [settled.owed]

theorem State.Settled.keeps (settled : s.Settled) (kept : s.Keeps t) : t.Settled :=
  ⟨kept.linked, kept.locked.trans settled.locked, fun j => by rw [kept.owed, settled.owed]⟩

theorem State.Settled.step (settled : s.Settled) {call : Call Method} (careful : s.careful call) (stepped : step s call = some t) :
    t.Settled := by
  obtain ⟨-, u, same, kept⟩ | ⟨bad, -⟩ := step_spec settled.linked settled.counted call
  · rw [stepped] at same
    cases same
    exact settled.keeps kept
  · exact absurd careful bad

theorem State.Linked.inOrder_iff (linked : s.Linked) : s.InOrder ↔ s.Settled := by
  constructor
  · intro inOrder
    refine ⟨linked, inOrder.1, fun j => ?_⟩
    cases found : s.tars j with
    | none => exact State.owed_none found
    | some tar =>
      have := inOrder.2.1 _ j tar (linked.listed j tar found) found
      rw [State.owed_some found]
      omega
  · intro settled
    refine ⟨settled.locked, fun key id tar _ found => ?_, fun h member gone => ?_⟩
    · have := settled.owed id
      rw [State.owed_some found] at this
      omega
    · obtain ⟨tar, there⟩ := linked.kept h member
      rw [gone] at there
      cases there

/-- The books are right after a call of a run just if it was a careful one: the call returns, and then the lock is free,
and each archive in the cache has a reference for each handle. An archive that a handle refers to is freed in no run. -/
theorem cache_in_order_iff :
    (∀ s : State, Transition.Run (@step Method) (fun _ _ => True) .new s → ∀ h ∈ s.handles, s.tars h.tar ≠ none) ∧
    ∀ s : State, Transition.Run (@step Method) State.careful .new s →
      s.InOrder ∧ ∀ call : Call Method, (∃ t, step s call = some t ∧ t.InOrder) ↔ s.careful call := by
  refine ⟨fun s run h member gone => ?_, fun s run => ?_⟩
  · have covered := run.keeps (P := State.Covered) State.Covered.new fun s call t covered _ stepped => covered.step stepped
    obtain ⟨tar, there⟩ := covered.linked.kept h member
    rw [gone] at there
    cases there
  have settled := run.keeps (P := State.Settled) State.Settled.new fun s call t settled careful stepped =>
    settled.step careful stepped
  refine ⟨settled.linked.inOrder_iff.mpr settled, fun call => ?_⟩
  obtain ⟨careful, t, stepped, kept⟩ | ⟨bad, spoilt⟩ := step_spec settled.linked settled.counted call
  · exact ⟨fun _ => careful, fun _ => ⟨t, stepped, kept.linked.inOrder_iff.mpr (settled.keeps kept)⟩⟩
  · refine ⟨fun returned => ?_, fun careful => absurd careful bad⟩
    obtain ⟨t, stepped, inOrder⟩ := returned
    have spoilt := spoilt t stepped
    have after := spoilt.linked.inOrder_iff.mp inOrder
    obtain taken | ⟨j, more⟩ := spoilt.spoilt
    · rw [after.locked] at taken
      cases taken
    · rw [settled.owed, after.owed] at more
      exact absurd more (Int.lt_irrefl 0)

/-- A member of an archive, and the outside when the archive can be read. -/
def memberUri (name : String) : Uri Unit := .child ⟨some (ascii name), none, ascii "tar", some ()⟩ archiveUri

def outsideOf (opening : Opening) : Outside := ⟨opening, ⟨0, 0⟩, ⟨fun _ => none, fun _ => []⟩⟩

set_option maxRecDepth 4096 in
/-- An archive that cannot be opened leaves the lock taken; a directory that is opened as a file, and a file that is listed,
leave a reference behind. -/
theorem references_left :
    (step .new (.open (memberUri "x") (outsideOf .failed))).map State.locked = some true ∧
    ((step .new (.open (memberUri "d/") (outsideOf (.read plainArchive.blocks)))).bind fun s =>
      (s.tars 0).map fun tar => ((tar.refCount : Int), s.openOn 0)) = some (1, 0) ∧
    ((step .new (.openDirectory (memberUri "d/x") (outsideOf (.read plainArchive.blocks)))).bind fun s =>
      (s.tars 0).map fun tar => ((tar.refCount : Int), s.openOn 0)) = some (1, 0) := by
  refine ⟨?_, ?_, ?_⟩ <;> decide +kernel

end Books

end GnomeVfs.Tar.Cache
