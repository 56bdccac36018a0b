import GnomeVfs.TarInfo
import GnomeVfs.TarTree

/- Listing a directory of a tar archive. -/
namespace GnomeVfs.Tar

section Model

variable {Method : Type}

/-- The node that `do_open_directory` opens; without a text it is the root. -/
def directoryNode (around : Around) (tar : TarFile) : Option Bytes → Option (Option Nat)
  | some text => (treeLookupEntry tar.blocks tar.infoTree around.stray text).map some
  | none => some none

/-- `do_open_directory`, on the archive that `ensure_tarfile` gives. -/
def doOpenDirectory (around : Around) (tar : TarFile) (text : Option Bytes) : Except VfsResult FileHandle :=
  match directoryNode around tar text with
  | none => .error .notFound
  | some node =>
    let current := (children tar.infoTree node).head?.map (dataOf tar.blocks tar.infoTree)
    let start := match node with
      | some node => some (dataOf tar.blocks tar.infoTree node)
      | none => current
    if node.isSome ∧ (start.map (nameAt tar.blocks)).bind List.getLast? ≠ some chrSlash then .error .notADirectory
    else .ok ⟨tar, start, current, CInt.zero, start.getD tar.blocks.length, tar.filename, true⟩

/-- The text of the URI that `do_read_directory` makes of the name in a block. -/
def entryUri (h : FileHandle) (block : Nat) : Bytes := h.filename ++ ascii "#tar:" ++ nameAt h.tar.blocks block

structure ListResult where
  result : VfsResult
  /-- The node that the information comes from, in its archive. -/
  info : Option (TarFile × Nat × FileInfo)
  handle : FileHandle

/-- What the rest of the library gives: the parser of URIs, the archives that `ensure_tarfile` finds or opens,
the guesses of MIME types, and what is in the memory around. -/
structure Library (Method : Type) where
  uris : UriContext Method
  archive : Bytes → Option TarFile
  guess : MimeGuess
  around : Around

variable (lib : Library Method)

/-- `do_get_file_info`, whose result is not looked at. Nothing is told of an archive that cannot be opened. -/
def getFileInfo (uri : Uri Method) : Option (Option (TarFile × Nat × FileInfo)) :=
  match uri.parent with
  | none => some none
  | some parent => (lib.archive (uriToString .none parent)).map fun tar =>
    match doGetFileInfo lib.around lib.guess tar (uriToString .none uri) uri.element.text {} with
    | .error _ => none
    | .ok (node, info) => some (tar, node, info)

/-- `do_read_directory`. Nothing is told of a name that makes no URI. -/
def doReadDirectory (h : FileHandle) : Option ListResult :=
  match h.current with
  | none => some ⟨.eof, none, h⟩
  | some block => do
    let uri ← uriNew lib.uris (entryUri h block)
    let info ← getFileInfo lib uri
    let text ← uri.element.text
    match treeLookupEntry h.tar.blocks h.tar.infoTree lib.around.stray text with
    | none => return ⟨.notFound, info, h⟩
    | some node =>
      let current := (next h.tar.infoTree node).map (dataOf h.tar.blocks h.tar.infoTree)
      return ⟨.ok, info, { h with current := current }⟩

/-- The results of a handle, one call after the other: these nodes of its archive, and the end. -/
def Lists : List Nat → FileHandle → Prop
  | [], h => ∃ r, doReadDirectory lib h = some r ∧ r.result = .eof
  | node :: rest, h => ∃ r info, doReadDirectory lib h = some r ∧ r.result = .ok ∧ r.info = some (h.tar, node, info) ∧
      Lists rest r.handle

/-- The URI made of the name of a node leads back to the archive and, in it, to the node. -/
def LeadsBack (tar : TarFile) (node : Nat) : Prop :=
  ∃ uri parent text,
    uriNew lib.uris (tar.filename ++ ascii "#tar:" ++ nodeName tar.blocks tar.infoTree node) = some uri ∧
      uri.parent = some parent ∧ lib.archive (uriToString .none parent) = some tar ∧ uri.element.text = some text ∧
        treeLookupEntry tar.blocks tar.infoTree lib.around.stray text = some node

end Model

section Siblings

variable {t : Tree} {parent : Option Nat} {before after : List Nat} {node : Nat}

theorem parent_of_mem (member : node ∈ children t parent) : (t[node]?.map Node.parent).getD none = parent := by
  obtain ⟨n, there, rfl⟩ := mem_children.mp member
  rw [there]
  rfl

theorem next_eq (split : children t parent = before ++ node :: after) : next t node = after.head? := by
  have member : node ∈ children t parent := by
    rw [split]
    exact List.mem_append_right _ List.mem_cons_self
  have order := children_pairwise t parent
  rw [split, List.pairwise_append, List.pairwise_cons] at order
  have none_before : before.find? (node < ·) = none := by
    refine List.find?_eq_none.mpr fun sibling among => ?_
    have less := order.2.2 sibling among node List.mem_cons_self
    rw [decide_eq_true_eq]
    exact Nat.lt_asymm less
  rw [next, parent_of_mem member, split, List.find?_append, none_before, Option.none_or,
    List.find?_cons_of_neg (by rw [decide_eq_true_eq]; exact Nat.lt_irrefl node)]
  cases after with
  | nil => rfl
  | cons sibling rest =>
    rw [List.find?_cons_of_pos (by rw [decide_eq_true_eq]; exact order.2.1.1 sibling List.mem_cons_self)]
    rfl

end Siblings

section Listing

variable {Method : Type} {lib : Library Method} {tar : TarFile} {parent : Option Nat} {node : Nat}

/-- A handle on its way through the nodes below a directory. -/
structure Listing (tar : TarFile) (nodes : List Nat) (h : FileHandle) : Prop where
  tar_eq : h.tar = tar
  filename : h.filename = tar.filename
  current : h.current = nodes.head?.map (dataOf tar.blocks tar.infoTree)

variable {h : FileHandle} {before after : List Nat} (split : children tar.infoTree parent = before ++ node :: after)
  (here : Listing tar (node :: after) h)

include here in
theorem Listing.entryUri : entryUri h (dataOf tar.blocks tar.infoTree node) =
    tar.filename ++ ascii "#tar:" ++ nodeName tar.blocks tar.infoTree node := by
  rw [Tar.entryUri, here.filename, here.tar_eq]
  rfl

include split here in
theorem readDirectory_of_leadsBack (leads : LeadsBack lib tar node) :
    ∃ r info, doReadDirectory lib h = some r ∧ r.result = .ok ∧ r.info = some (tar, node, info) ∧
      Listing tar after r.handle := by
  obtain ⟨uri, parent', text, parsed, parent_eq, archive, text_eq, found⟩ := leads
  have named : namedNode lib.around tar uri.element.text = some node := by
    rw [text_eq]
    exact found
  obtain ⟨info, told⟩ : ∃ info, getFileInfo lib uri = some (some (tar, node, info)) := by
    refine ⟨memberInfo lib.around tar.blocks (dataOf tar.blocks tar.infoTree node) lib.guess (uriToString .none uri) {}, ?_⟩
    simp only [getFileInfo, parent_eq, archive, Option.map_some, doGetFileInfo, named]
  have current : h.current = some (dataOf tar.blocks tar.infoTree node) := here.current
  refine ⟨⟨.ok, some (tar, node, info), { h with current := (next tar.infoTree node).map (dataOf tar.blocks tar.infoTree) }⟩,
    info, ?_, rfl, rfl, here.tar_eq, here.filename, ?_⟩
  · simp only [doReadDirectory, current, here.entryUri, parsed, told, text_eq, here.tar_eq, found,
      Option.bind_eq_bind, Option.bind_some]
    rfl
  · rw [next_eq split]

include here in
/-- The name leads back if the call tells about the node it is the name of. -/
theorem leadsBack_of_readDirectory {r : ListResult} {info : FileInfo} (read : doReadDirectory lib h = some r)
    (told : r.info = some (tar, node, info)) : LeadsBack lib tar node := by
  have current : h.current = some (dataOf tar.blocks tar.infoTree node) := here.current
  simp only [doReadDirectory, current, here.entryUri, here.tar_eq, Option.bind_eq_bind] at read
  obtain ⟨uri, parsed, read⟩ := Option.bind_eq_some_iff.mp read
  obtain ⟨got, info_eq, read⟩ := Option.bind_eq_some_iff.mp read
  obtain ⟨text, text_eq, read⟩ := Option.bind_eq_some_iff.mp read
  have same : got = some (tar, node, info) := by
    rw [← told]
    split at read <;> (obtain rfl := Option.some.inj read; rfl)
  subst same
  rw [getFileInfo] at info_eq
  split at info_eq
  · cases Option.some.inj info_eq
  · rename_i parent' parent_eq
    obtain ⟨tar', archive, info_eq⟩ := Option.map_eq_some_iff.mp info_eq
    cases named : namedNode lib.around tar' uri.element.text with
    | none =>
      rw [doGetFileInfo, named] at info_eq
      cases info_eq
    | some node' =>
      rw [doGetFileInfo, named] at info_eq
      dsimp only at info_eq
      rw [Option.some.injEq, Prod.mk.injEq, Prod.mk.injEq] at info_eq
      obtain ⟨rfl, rfl, -⟩ := info_eq
      rw [text_eq] at named
      exact ⟨uri, parent', text, parsed, parent_eq, archive, text_eq, named⟩

theorem readDirectory_end (here : Listing tar [] h) : doReadDirectory lib h = some ⟨.eof, none, h⟩ := by
  have current : h.current = none := here.current
  rw [doReadDirectory, current]

theorem lists_iff_leadsBack (nodes : List Nat) : ∀ {before : List Nat} {h : FileHandle},
    children tar.infoTree parent = before ++ nodes → Listing tar nodes h →
    (Lists lib nodes h ↔ ∀ node ∈ nodes, LeadsBack lib tar node) := by
  induction nodes with
  | nil =>
    intro before h _ here
    exact ⟨fun _ _ member => absurd member List.not_mem_nil, fun _ => ⟨_, readDirectory_end here, rfl⟩⟩
  | cons node rest ih =>
    intro before h split here
    have rest_split : children tar.infoTree parent = (before ++ [node]) ++ rest := by
      rw [split, List.append_assoc, List.singleton_append]
    rw [Lists, List.forall_mem_cons, here.tar_eq]
    constructor
    · rintro ⟨r, info, read, ok, told, others⟩
      have leads := leadsBack_of_readDirectory here read told
      obtain ⟨r', info', read', -, -, there⟩ := readDirectory_of_leadsBack split here leads
      obtain rfl := Option.some.inj (read.symm.trans read')
      exact ⟨leads, (ih rest_split there).mp others⟩
    · rintro ⟨leads, others⟩
      obtain ⟨r, info, read, ok, told, there⟩ := readDirectory_of_leadsBack split here leads
      exact ⟨r, info, read, ok, told, (ih rest_split there).mpr others⟩

theorem doOpenDirectory_listing {around : Around} {text : Option Bytes} (opened : doOpenDirectory around tar text = .ok h)
    (directory : directoryNode around tar text = some parent) : Listing tar (children tar.infoTree parent) h := by
  rw [doOpenDirectory, directory] at opened
  cases parent with
  | none =>
    dsimp only at opened
    split at opened
    · cases opened
    · obtain rfl := Except.ok.inj opened
      exact ⟨rfl, rfl, rfl⟩
  | some node =>
    dsimp only at opened
    split at opened
    · cases opened
    · obtain rfl := Except.ok.inj opened
      exact ⟨rfl, rfl, rfl⟩

theorem leadsBack_unique {node' : Nat} (leads : LeadsBack lib tar node) (leads' : LeadsBack lib tar node')
    (same : nodeName tar.blocks tar.infoTree node = nodeName tar.blocks tar.infoTree node') : node = node' := by
  obtain ⟨uri, -, text, parsed, -, -, text_eq, found⟩ := leads
  obtain ⟨uri', -, text', parsed', -, -, text_eq', found'⟩ := leads'
  rw [same] at parsed
  obtain rfl := Option.some.inj (parsed.symm.trans parsed')
  obtain rfl := Option.some.inj (text_eq.symm.trans text_eq')
  exact Option.some.inj (found.symm.trans found')

theorem children_listed (here : Listing tar (children tar.infoTree parent) h) :
    Lists lib (children tar.infoTree parent) h ↔ ∀ node ∈ children tar.infoTree parent, LeadsBack lib tar node :=
  lists_iff_leadsBack _ (List.nil_append _).symm here

/-- Listing a directory gives the nodes below it, each once and in order, and then the end, exactly if the
name of each of them leads back to it: it survives the parser of URIs, and no other node is found for it. -/
theorem directory_listed_iff (lib : Library Method) {text : Option Bytes} (opened : doOpenDirectory lib.around tar text = .ok h)
    (directory : directoryNode lib.around tar text = some parent) :
    Lists lib (children tar.infoTree parent) h ↔ ∀ node ∈ children tar.infoTree parent, LeadsBack lib tar node :=
  children_listed (doOpenDirectory_listing opened directory)

end Listing

section Small

/-- The library as far as it is asked for `file` and `tar`. -/
def tarContext : UriContext Unit :=
  ⟨fun method => if method = ascii "file" ∨ method = ascii "tar" then some () else none, fun _ => none, fun _ => .control⟩

/-- An archive of directories and empty files. -/
def archiveOf (names : List String) : TarFile :=
  readTarFile (ascii "file:///a") (names.map fun name => .header (ascii name) [] 48)

def plainArchive : TarFile := archiveOf ["d/", "d/x", "d/y"]

def repeatedArchive : TarFile := archiveOf ["d/", "d/x", "d/x"]

def libraryOf (tar : TarFile) : Library Unit :=
  ⟨tarContext, fun s => if s = ascii "file:///a" then some tar else none, ⟨fun _ => none, fun _ => []⟩, ⟨0, 0⟩⟩

theorem libraryOf_archive (tar : TarFile) : (libraryOf tar).archive (ascii "file:///a") = some tar := by
  simp only [libraryOf, ↓reduceIte]

def archiveUri : Uri Unit := .toplevel ⟨some (ascii "/a"), none, ascii "file", some ()⟩ .empty

def entryOf (name : String) : Uri Unit := .child ⟨some (ascii name), none, ascii "tar", some ()⟩ archiveUri

def directoryHandle (tar : TarFile) : FileHandle :=
  ⟨tar, some 0, some 1, CInt.zero, 0, ascii "file:///a", true⟩

set_option maxRecDepth 4096 in
theorem plain_opened : doOpenDirectory ⟨0, 0⟩ plainArchive (some (ascii "d")) =
    .ok (directoryHandle plainArchive) := by rfl

set_option maxRecDepth 4096 in
theorem repeated_opened : doOpenDirectory ⟨0, 0⟩ repeatedArchive (some (ascii "d")) =
    .ok (directoryHandle repeatedArchive) := by rfl

theorem two_entries_listed :
    Lists (libraryOf plainArchive) (children plainArchive.infoTree (some 0)) (directoryHandle plainArchive) := by
  have below : children plainArchive.infoTree (some 0) = [1, 2] := by decide +kernel
  have directory : directoryNode ⟨0, 0⟩ plainArchive (some (ascii "d")) = some (some 0) := by
    decide +kernel
  have archive : uriToString .none archiveUri = ascii "file:///a" := by decide +kernel
  have leads : ∀ node name, uriNew tarContext (ascii "file:///a" ++ ascii "#tar:" ++
      nodeName plainArchive.blocks plainArchive.infoTree node) = some (entryOf name) →
      treeLookupEntry plainArchive.blocks plainArchive.infoTree 0 (ascii name) = some node →
      LeadsBack (libraryOf plainArchive) plainArchive node := fun node name parsed found =>
    ⟨entryOf name, archiveUri, ascii name, parsed, rfl, by rw [archive, libraryOf_archive], rfl, found⟩
  rw [directory_listed_iff (libraryOf plainArchive) plain_opened directory, below]
  intro node member
  rcases List.mem_cons.mp member with rfl | member
  · exact leads 1 "d/x" (by decide +kernel) (by decide +kernel)
  · obtain rfl := List.mem_singleton.mp member
    exact leads 2 "d/y" (by decide +kernel) (by decide +kernel)

/-- Of two members with one name the second is looked up as the first. -/
theorem repeated_entry_not_listed : ¬ Lists (libraryOf repeatedArchive) (children repeatedArchive.infoTree (some 0))
    (directoryHandle repeatedArchive) := by
  have below : children repeatedArchive.infoTree (some 0) = [1, 2] := by decide +kernel
  have directory : directoryNode ⟨0, 0⟩ repeatedArchive (some (ascii "d")) = some (some 0) := by
    decide +kernel
  have names : nodeName repeatedArchive.blocks repeatedArchive.infoTree 1 =
      nodeName repeatedArchive.blocks repeatedArchive.infoTree 2 := by
    decide +kernel
  rw [children_listed (doOpenDirectory_listing repeated_opened directory), below]
  intro leads
  have first := leads 1 List.mem_cons_self
  have second := leads 2 (List.mem_cons_of_mem _ (List.mem_singleton_self 2))
  exact absurd (leadsBack_unique first second names) (by decide)

end Small

end GnomeVfs.Tar
