import GnomeVfs.FtpMethod

/- Which command lists a directory: the candidates of `get_list_command`, and the one that a connection
remembers. -/
namespace GnomeVfs.Ftp

open Interaction Action

variable {M : Type}

def requestListing (listCmd : Option Bytes) : Conversation M VfsResult :=
  match listCmd with
  | some command => doTransferCommand .transfer command
  | none => getListCommand

/-- What `do_open_directory` does on the connection that it has acquired. -/
def listDirectory (fuel : Nat) (uri : Uri M) : Conversation M VfsResult := do
  modify fun conn => { conn with fivefifty := .notADirectory }
  let result ← doPathCommand .command (ascii "CWD") uri
  if result ≠ .ok then return result
  let conn ← get
  let result ← requestListing conn.listCmd
  if result ≠ .ok then return result
  let _ ← readListing fuel
  endTransfer .listing

/-- A server that knows some of the commands that list a directory, with its response to `PASV`. -/
structure ListServer where
  accepts : Bytes → Bool
  passive : Bytes
  address : Bytes × Int
  parses : parsePasv passive = some address

/-- The commands that list a directory, as far as they have come, and the responses that are to be read. -/
structure Dialogue where
  listed : List Bytes
  owed : List Response
  deriving DecidableEq

def isList (command : Bytes) : Bool := command.take 4 = ascii "LIST"

/-- What a command is answered with. -/
def ListServer.replies (server : ListServer) (command : Bytes) : List Response :=
  if isList command then if server.accepts command then [⟨150, []⟩, ⟨226, []⟩] else [⟨504, []⟩]
  else if command = ascii "PASV" then [⟨227, server.passive⟩]
  else [⟨250, []⟩]

def ListServer.answer (server : ListServer) (w : Dialogue) : (r : ControlReq) → r.Resp × Dialogue
  | .write _ line =>
    let command := line.dropLast.dropLast
    (.ok, ⟨if isList command then w.listed ++ [command] else w.listed, server.replies command⟩)
  | .response _ => (.ok (w.owed.headD ⟨226, []⟩), { w with owed := w.owed.tail })
  | .dataConnect _ _ => (.ok, w)
  | .dataRead => ((.eof, []), w)
  | .dataClose => ((), w)

def ListServer.openOne (server : ListServer) (fuel : Nat) (uri : Uri M) (conn : Connection M) :
    Outcome Stop (VfsResult × Connection M) × Dialogue :=
  (listDirectory fuel uri conn).play server.answer ⟨[], []⟩

/-- What a directory comes to: the result, and the command that was the last to be sent. A connection on which
that fails is not used again. -/
def logged (later : Connection M → List (VfsResult × Option Bytes)) :
    Outcome Stop (VfsResult × Connection M) × Dialogue → List (VfsResult × Option Bytes)
  | (.returned (result, conn), w) => (result, w.listed.getLast?) :: if result = .ok then later conn else []
  | (.stopped _, _) => []

/-- Directories are opened on one connection, one behind the other. -/
def ListServer.openAll (server : ListServer) (fuel : Nat) : List (Uri M) → Connection M → List (VfsResult × Option Bytes)
  | [], _ => []
  | uri :: rest, conn => logged (server.openAll fuel rest) (server.openOne fuel uri conn)

/-- Behind the first listing that succeeds, the same command is sent. -/
def SameCommand (log : List (VfsResult × Option Bytes)) : Prop :=
  ∀ command rest, log = (.ok, command) :: rest → ∀ later ∈ rest, later.2 = command

/-- A server whose type names it so is asked for less. -/
def Connection.macos (conn : Connection M) : Bool := conn.serverType.any fun name => ascii "MACOS" <:+: name

section Exchanges

variable {server : ListServer} {conn conn' : Connection M} {w w' : Dialogue} {phase : Phase} {command : Bytes}

/-- The connection is as it was, as far as listings are concerned. -/
structure Alike (conn conn' : Connection M) : Prop where
  listCmd : conn'.listCmd = conn.listCmd
  serverType : conn'.serverType = conn.serverType

theorem macos_congr (same : conn'.serverType = conn.serverType) : conn'.macos = conn.macos := by
  rw [Connection.macos, same, Connection.macos]

theorem Alike.refl (conn : Connection M) : Alike conn conn := ⟨rfl, rfl⟩

theorem Alike.trans {conn'' : Connection M} (first : Alike conn conn') (second : Alike conn' conn'') : Alike conn conn'' :=
  ⟨second.listCmd.trans first.listCmd, second.serverType.trans first.serverType⟩

theorem Alike.noted {code : Int} {message : Option Bytes} :
    Alike conn { conn with responseCode := code, responseMessage := message } := ⟨rfl, rfl⟩

theorem Alike.data {data : Bool} : Alike conn { conn with hasData := data } := ⟨rfl, rfl⟩

/-- The exchange goes on where the first part has succeeded. -/
theorem Plays.check {x next : Conversation M VfsResult} {result : VfsResult} {conn'' : Connection M} {w'' : Dialogue}
    (first : Plays server.answer x conn w .ok conn' w') (second : Plays server.answer next conn' w' result conn'' w'') :
    Plays server.answer (do
      let result ← x
      if result ≠ .ok then return result
      next) conn w result conn'' w'' :=
  first.bind second

variable (server conn w phase)

theorem plays_doBasicCommand {first : Response} {rest : List Response} (replies : server.replies command = first :: rest) :
    Plays server.answer (doBasicCommand phase command) conn w (ftpResponseToVfsResult first.code conn.fivefifty)
      { conn with responseCode := first.code, responseMessage := some first.message }
      ⟨if isList command then w.listed ++ [command] else w.listed, rest⟩ := by
  have sent : (command ++ [carriageReturn, lineFeed]).dropLast.dropLast = command := by simp
  have answered : server.answer w (.write phase (command ++ [carriageReturn, lineFeed])) =
      (.ok, ⟨if isList command then w.listed ++ [command] else w.listed, server.replies command⟩) := by
    rw [ListServer.answer, sent]
  have written : Plays server.answer (doControlWrite phase command) conn w .ok conn
      ⟨if isList command then w.listed ++ [command] else w.listed, first :: rest⟩ := by
    show ((.returned ((server.answer w _).1, conn), (server.answer w _).2) : Outcome _ _ × Dialogue) = _
    rw [answered, replies]
  exact Plays.check written rfl

theorem plays_quiet (other : isList command = false) (notPasv : command ≠ ascii "PASV") :
    ∃ conn', Alike conn conn' ∧ Plays server.answer (doBasicCommand phase command) conn w .ok conn' ⟨w.listed, []⟩ := by
  have replies : server.replies command = [⟨250, []⟩] := by
    rw [ListServer.replies, other, if_neg Bool.false_ne_true, if_neg notPasv]
  have played := plays_doBasicCommand server conn w phase replies
  rw [other, if_neg Bool.false_ne_true] at played
  refine ⟨_, ?_, played⟩
  exact .noted

theorem isList_append {front : Bytes} (long : 4 ≤ front.length) (rest : Bytes) : isList (front ++ rest) = isList front := by
  rw [isList, isList, List.take_append_of_le_length long]

/-- A command that lists: the transfer is begun, or the connection for the data is closed again. -/
theorem plays_transferTo (address : Bytes × Int) (lists : isList command = true) :
    ∃ conn', Alike conn conn' ∧ Plays server.answer (transferTo phase command address) conn ⟨w.listed, []⟩
      (if server.accepts command then .ok else .badParameters) conn'
      ⟨w.listed ++ [command], if server.accepts command then [⟨226, []⟩] else []⟩ := by
  have opened : Alike conn { conn with hasData := true } := .data
  -- the transfer may have to begin behind what has been read
  have restarted : ∃ again, Alike { conn with hasData := true } again ∧
      Plays server.answer (restart phase) { conn with hasData := true } ⟨w.listed, []⟩ .ok again ⟨w.listed, []⟩ := by
    by_cases zero : conn.offset = 0
    · refine ⟨_, .refl _, plays_get.bind ?_⟩
      rw [if_neg (not_not.mpr zero)]
      exact plays_pure
    · have other : isList (ascii "REST " ++ printInt conn.offset) = false := isList_append (by decide) _
      have notPasv : ascii "REST " ++ printInt conn.offset ≠ ascii "PASV" := by
        intro same
        have front := congrArg (List.take 1) same
        rw [List.take_append_of_le_length (by decide)] at front
        exact absurd front (by decide)
      obtain ⟨again, alike, played⟩ := plays_quiet server { conn with hasData := true } ⟨w.listed, []⟩ phase other
        notPasv
      refine ⟨again, alike, plays_get.bind ?_⟩
      rw [if_pos zero]
      exact played
  obtain ⟨again, alike, restarted⟩ := restarted
  by_cases known : server.accepts command = true
  · have replies : server.replies command = ⟨150, []⟩ :: [⟨226, []⟩] := by
      rw [ListServer.replies, if_pos lists, if_pos known]
    have played := plays_doBasicCommand server again ⟨w.listed, []⟩ phase replies
    rw [if_pos lists] at played
    refine ⟨{ again with responseCode := 150, responseMessage := some [] }, (opened.trans alike).trans .noted,
      plays_ask.bind ?_⟩
    rw [if_pos known, if_pos known]
    exact plays_modify.bind ((Plays.check restarted played).bind plays_pure)
  · have replies : server.replies command = ⟨504, []⟩ :: [] := by
      rw [ListServer.replies, if_pos lists, if_neg known]
    have played := plays_doBasicCommand server again ⟨w.listed, []⟩ phase replies
    rw [if_pos lists] at played
    refine ⟨{ again with responseCode := 504, responseMessage := some [], hasData := false },
      (opened.trans alike).trans ⟨rfl, rfl⟩, plays_ask.bind ?_⟩
    rw [if_neg known, if_neg known]
    refine plays_modify.bind ((Plays.check restarted played).bind ?_)
    exact (plays_ask.bind plays_modify).bind plays_pure

theorem plays_passive :
    ∃ conn', Alike conn conn' ∧ conn'.responseMessage = some server.passive ∧
      Plays server.answer (doBasicCommand phase (ascii "PASV")) conn w .ok conn' ⟨w.listed, []⟩ := by
  have replies : server.replies (ascii "PASV") = [⟨227, server.passive⟩] := by
    rw [ListServer.replies, if_neg (by decide), if_pos rfl]
  have played := plays_doBasicCommand server conn w phase replies
  have ok : ftpResponseToVfsResult (227 : Nat) conn.fivefifty = .ok := rfl
  rw [if_neg (show ¬ isList (ascii "PASV") = true by decide), ok] at played
  refine ⟨_, ?_, ?_, played⟩
  · exact .noted
  · rfl

theorem plays_doTransferCommand (lists : isList command = true) :
    ∃ conn', Alike conn conn' ∧ Plays server.answer (doTransferCommand phase command) conn w
      (if server.accepts command then .ok else .badParameters) conn'
      ⟨w.listed ++ [command], if server.accepts command then [⟨226, []⟩] else []⟩ := by
  obtain ⟨image, first, typed⟩ := plays_quiet server conn w phase (show isList (ascii "TYPE I") = false by decide) (by decide)
  obtain ⟨told, second, message, passive⟩ := plays_passive server image ⟨w.listed, []⟩ phase
  obtain ⟨conn', last, transferred⟩ := plays_transferTo server told w phase server.address lists
  have address : told.responseMessage.bind parsePasv = some server.address := by
    rw [message]
    exact server.parses
  refine ⟨conn', (first.trans second).trans last, Plays.check typed (Plays.check passive (plays_get.bind ?_))⟩
  rw [address]
  exact transferred

/-- The transfer is over. -/
theorem plays_getResponse :
    ∃ conn', Alike conn conn' ∧
      Plays server.answer (getResponse phase) conn ⟨w.listed, [⟨226, []⟩]⟩ .ok conn' ⟨w.listed, []⟩ := by
  have ok : ftpResponseToVfsResult (226 : Nat) conn.fivefifty = .ok := rfl
  have told : Plays server.answer (getResponse phase) conn ⟨w.listed, [⟨226, []⟩]⟩
      (ftpResponseToVfsResult (226 : Nat) conn.fivefifty)
      { conn with responseCode := (226 : Nat), responseMessage := some [] } ⟨w.listed, []⟩ := rfl
  rw [ok] at told
  refine ⟨_, ?_, told⟩
  exact .noted

theorem plays_endTransfer :
    ∃ conn', Alike conn conn' ∧
      Plays server.answer (endTransfer phase) conn ⟨w.listed, [⟨226, []⟩]⟩ .ok conn' ⟨w.listed, []⟩ := by
  by_cases data : conn.hasData = true
  · obtain ⟨conn', alike, told⟩ := plays_getResponse server { conn with hasData := false } w phase
    refine ⟨conn', Alike.data.trans alike, plays_get.bind ?_⟩
    rw [if_pos data]
    exact (plays_ask.bind plays_modify).bind told
  · obtain ⟨conn', alike, told⟩ := plays_getResponse server conn w phase
    refine ⟨conn', alike, plays_get.bind ?_⟩
    rw [if_neg data]
    exact told

theorem plays_readListing {fuel : Nat} : Plays server.answer (readListing (fuel + 1)) conn w [] conn w :=
  Plays.finish (plays_ask.bind plays_pure)

end Exchanges

section Requests

variable {server : ListServer} {conn : Connection M} {w : Dialogue} {command : Bytes}

/-- The commands that `get_list_command` tries. -/
def candidates (macos : Bool) : List Bytes :=
  if macos then [ascii "LIST -a"] else [ascii "LIST -aL", ascii "LIST -a", ascii "LIST -L"]

theorem isList_of_mem_candidates {macos : Bool} (member : command ∈ candidates macos) : isList command = true := by
  cases macos with
  | true =>
    obtain rfl := List.mem_singleton.mp member
    rfl
  | false =>
    simp only [candidates, Bool.false_eq_true, if_false, List.mem_cons, List.not_mem_nil, or_false] at member
    obtain rfl | rfl | rfl := member <;> rfl

/-- The candidates are tried up to the first that the server knows. -/
theorem plays_tryCandidates_found (after : List Bytes) (lists : isList command = true)
    (known : server.accepts command = true) : ∀ (before : List Bytes) (conn : Connection M) (w : Dialogue),
    (∀ other ∈ before, isList other = true ∧ server.accepts other = false) →
    ∃ conn' front, Alike conn conn' ∧ Plays server.answer (tryCandidates (before ++ command :: after)) conn w
      (.ok, after.head?) conn' ⟨w.listed ++ front ++ [command], [⟨226, []⟩]⟩
  | [], conn, w, _ => by
    obtain ⟨conn', alike, played⟩ := plays_doTransferCommand server conn w .candidate lists
    rw [if_pos known, if_pos known] at played
    refine ⟨conn', [], alike, ?_⟩
    rw [List.append_nil]
    cases after with
    | nil => exact played.bind plays_pure
    | cons next rest => exact played.bind plays_pure
  | other :: before, conn, w, refused => by
    obtain ⟨otherLists, unknown⟩ := refused other List.mem_cons_self
    obtain ⟨told, first, played⟩ := plays_doTransferCommand server conn w .candidate otherLists
    rw [if_neg (by simp [unknown]), if_neg (by simp [unknown])] at played
    obtain ⟨conn', front, second, rest⟩ := plays_tryCandidates_found after lists known before told
      ⟨w.listed ++ [other], []⟩ fun other member => refused other (List.mem_cons_of_mem _ member)
    refine ⟨conn', other :: front, first.trans second, ?_⟩
    have listed : w.listed ++ (other :: front) ++ [command] = w.listed ++ [other] ++ front ++ [command] := by simp
    rw [listed]
    cases before with
    | nil => exact played.bind rest
    | cons next before => exact played.bind rest

theorem plays_tryCandidates_refused : ∀ (tried : List Bytes) (conn : Connection M) (w : Dialogue), tried ≠ [] →
    (∀ other ∈ tried, isList other = true ∧ server.accepts other = false) →
    ∃ conn', Alike conn conn' ∧ Plays server.answer (tryCandidates tried) conn w (.badParameters, none) conn'
      ⟨w.listed ++ tried, []⟩
  | [], _, _, nonempty, _ => absurd rfl nonempty
  | [other], conn, w, _, refused => by
    obtain ⟨lists, unknown⟩ := refused other List.mem_cons_self
    obtain ⟨conn', alike, played⟩ := plays_doTransferCommand server conn w .candidate lists
    rw [if_neg (by simp [unknown]), if_neg (by simp [unknown])] at played
    exact ⟨conn', alike, played.bind plays_pure⟩
  | other :: next :: rest, conn, w, _, refused => by
    obtain ⟨lists, unknown⟩ := refused other List.mem_cons_self
    obtain ⟨told, first, played⟩ := plays_doTransferCommand server conn w .candidate lists
    rw [if_neg (by simp [unknown]), if_neg (by simp [unknown])] at played
    obtain ⟨conn', second, last⟩ := plays_tryCandidates_refused (next :: rest) told
      ⟨w.listed ++ [other], []⟩ (List.cons_ne_nil _ _)
      fun other member => refused other (List.mem_cons_of_mem _ member)
    refine ⟨conn', first.trans second, ?_⟩
    have listed : w.listed ++ other :: next :: rest = w.listed ++ [other] ++ next :: rest := by simp
    rw [listed]
    exact played.bind last

variable (server)

/-- A directory is listed with a command that is not remembered: what comes of it, the command that was the last
to be sent, and the command that is remembered. -/
def ListServer.search (macos : Bool) : VfsResult × Bytes × Option Bytes :=
  match (candidates macos).dropWhile fun command => !server.accepts command with
  | command :: after => (.ok, command, after.head?)
  | [] => (if server.accepts (ascii "LIST") then .ok else .badParameters, ascii "LIST", some (ascii "LIST"))

def ListServer.request (macos : Bool) : Option Bytes → VfsResult × Bytes × Option Bytes
  | some command => (if server.accepts command then .ok else .badParameters, command, some command)
  | none => server.search macos

/-- What a transfer leaves to be read. -/
def owedAfter (result : VfsResult) : List Response := if result = .ok then [⟨226, []⟩] else []

theorem plays_transfer (conn : Connection M) (w : Dialogue) (phase : Phase) (lists : isList command = true) :
    ∃ conn', Alike conn conn' ∧ Plays server.answer (doTransferCommand phase command) conn w
      (if server.accepts command then .ok else .badParameters) conn'
      ⟨w.listed ++ [command], owedAfter (if server.accepts command then .ok else .badParameters)⟩ := by
  obtain ⟨conn', alike, played⟩ := plays_doTransferCommand server conn w phase lists
  refine ⟨conn', alike, ?_⟩
  cases known : server.accepts command with
  | true =>
    rw [known] at played
    exact played
  | false =>
    rw [known] at played
    exact played

theorem plays_getListCommand (conn : Connection M) (w : Dialogue) :
    ∃ conn' front, conn'.listCmd = (server.search conn.macos).2.2 ∧ conn'.serverType = conn.serverType ∧
      Plays server.answer getListCommand conn w (server.search conn.macos).1 conn'
        ⟨w.listed ++ front ++ [(server.search conn.macos).2.1], owedAfter (server.search conn.macos).1⟩ := by
  have split := List.takeWhile_append_dropWhile (p := fun command => !server.accepts command)
    (l := candidates conn.macos)
  cases found : (candidates conn.macos).dropWhile fun command => !server.accepts command with
  | cons command after =>
    rw [found] at split
    have known : server.accepts command = true := by
      have head := List.head?_dropWhile_not (fun command => !server.accepts command) (candidates conn.macos)
      rw [found] at head
      simpa using head
    have refused : ∀ other ∈ (candidates conn.macos).takeWhile fun command => !server.accepts command,
        isList other = true ∧ server.accepts other = false := by
      intro other member
      exact ⟨isList_of_mem_candidates ((List.takeWhile_sublist _).subset member),
        by simpa using List.mem_takeWhile_imp member⟩
    have lists : isList command = true :=
      isList_of_mem_candidates (split ▸ List.mem_append_right _ List.mem_cons_self)
    obtain ⟨told, front, alike, played⟩ := plays_tryCandidates_found after lists known _ conn w refused
    rw [split] at played
    simp only [ListServer.search, found]
    refine ⟨{ told with listCmd := after.head? }, front, rfl, alike.serverType, plays_get.bind (played.bind ?_)⟩
    exact plays_modify.bind plays_pure
  | nil =>
    have refused : ∀ other ∈ candidates conn.macos, isList other = true ∧ server.accepts other = false := by
      intro other member
      exact ⟨isList_of_mem_candidates member, by simpa using List.dropWhile_eq_nil_iff.mp found other member⟩
    have nonempty : candidates conn.macos ≠ [] := by
      cases conn.macos <;> exact List.cons_ne_nil _ _
    obtain ⟨told, first, played⟩ := plays_tryCandidates_refused _ conn w nonempty refused
    obtain ⟨again, second, last⟩ := plays_transfer server told ⟨w.listed ++ candidates conn.macos, []⟩ .transfer
      (show isList (ascii "LIST") = true by decide)
    simp only [ListServer.search, found]
    refine ⟨{ again with listCmd := some (ascii "LIST") }, candidates conn.macos, rfl,
      second.serverType.trans first.serverType, plays_get.bind (played.bind ?_)⟩
    exact last.bind (plays_modify.bind plays_pure)

theorem plays_doPathCommand (conn : Connection M) (w : Dialogue) (uri : Uri M) :
    ∃ conn', Alike conn conn' ∧ Plays server.answer (doPathCommand .command (ascii "CWD") uri) conn w .ok conn' ⟨w.listed, []⟩ := by
  have quiet (rest : Bytes) : isList (ascii "CWD " ++ rest) = false ∧ ascii "CWD " ++ rest ≠ ascii "PASV" := by
    refine ⟨isList_append (by decide) _, fun same => ?_⟩
    have front := congrArg (List.take 1) same
    rw [List.take_append_of_le_length (by decide)] at front
    exact absurd front (by decide)
  obtain ⟨inside, first, moved⟩ := plays_quiet server conn w .command (quiet (pathGetDirname (commandPath uri))).1
    (quiet (pathGetDirname (commandPath uri))).2
  obtain ⟨conn', second, entered⟩ := plays_quiet server inside ⟨w.listed, []⟩ .command
    (quiet (pathGetBasename (commandPath uri))).1 (quiet (pathGetBasename (commandPath uri))).2
  exact ⟨conn', first.trans second, Plays.check moved entered⟩

theorem isList_search {macos : Bool} (remembered : (server.search macos).2.2 = some command) : isList command = true := by
  unfold ListServer.search at remembered
  split at remembered
  · rename_i tried after found
    have member : command ∈ (candidates macos).dropWhile fun command => !server.accepts command := by
      rw [found]
      exact List.mem_cons_of_mem _ (List.mem_of_mem_head? remembered)
    exact isList_of_mem_candidates ((List.dropWhile_sublist _).subset member)
  · cases remembered
    decide

theorem plays_listDirectory (fuel : Nat) (uri : Uri M) (conn : Connection M) (w : Dialogue)
    (remembered : ∀ command, conn.listCmd = some command → isList command = true) :
    ∃ conn' w' front, conn'.listCmd = (server.request conn.macos conn.listCmd).2.2 ∧ conn'.serverType = conn.serverType ∧
      w'.listed = front ++ [(server.request conn.macos conn.listCmd).2.1] ∧
      Plays server.answer (listDirectory (fuel + 1) uri) conn w (server.request conn.macos conn.listCmd).1 conn' w' := by
  obtain ⟨inside, first, entered⟩ := plays_doPathCommand server { conn with fivefifty := .notADirectory } w uri
  have listCmd : inside.listCmd = conn.listCmd := first.listCmd
  have serverType : inside.serverType = conn.serverType := first.serverType
  have macos : inside.macos = conn.macos := macos_congr serverType
  -- the command is sent that is remembered, or one is looked for
  have requested : ∃ begun front, begun.listCmd = (server.request conn.macos conn.listCmd).2.2 ∧
      begun.serverType = conn.serverType ∧
      Plays server.answer (requestListing inside.listCmd) inside ⟨w.listed, []⟩ (server.request conn.macos conn.listCmd).1 begun
        ⟨front ++ [(server.request conn.macos conn.listCmd).2.1], owedAfter (server.request conn.macos conn.listCmd).1⟩ := by
    rw [listCmd]
    cases known : conn.listCmd with
    | some command =>
      obtain ⟨begun, alike, played⟩ := plays_transfer server inside ⟨w.listed, []⟩ .transfer (remembered command known)
      exact ⟨begun, w.listed, alike.listCmd.trans (listCmd.trans known), alike.serverType.trans serverType, played⟩
    | none =>
      obtain ⟨begun, front, kept, type, played⟩ := plays_getListCommand server inside ⟨w.listed, []⟩
      rw [macos] at kept played
      exact ⟨begun, w.listed ++ front, kept, type.trans serverType, played⟩
  obtain ⟨begun, front, kept, type, played⟩ := requested
  by_cases ok : (server.request conn.macos conn.listCmd).1 = .ok
  · obtain ⟨conn', last, ended⟩ := plays_endTransfer server begun
      ⟨front ++ [(server.request conn.macos conn.listCmd).2.1], []⟩ .listing
    rw [ok, owedAfter, if_pos rfl] at played
    refine ⟨conn', ⟨front ++ [(server.request conn.macos conn.listCmd).2.1], []⟩, front, last.listCmd.trans kept,
      last.serverType.trans type, rfl, ?_⟩
    rw [ok]
    refine plays_modify.bind (Plays.check entered (plays_get.bind (Plays.check played ?_)))
    exact (plays_readListing server begun _).bind ended
  · refine ⟨begun, ⟨front ++ [(server.request conn.macos conn.listCmd).2.1],
      owedAfter (server.request conn.macos conn.listCmd).1⟩, front, kept, type, rfl, ?_⟩
    refine plays_modify.bind (Plays.check entered (plays_get.bind (played.bind ?_)))
    rw [if_pos ok]
    exact plays_pure

end Requests

section Sequences

variable (server : ListServer)

/-- What directories opened one after the other come to, for a command that is remembered at first. -/
def ListServer.requests (server : ListServer) (macos : Bool) : Nat → Option Bytes → List (VfsResult × Option Bytes)
  | 0, _ => []
  | n + 1, remembered =>
    ((server.request macos remembered).1, some (server.request macos remembered).2.1) ::
      if (server.request macos remembered).1 = .ok then server.requests macos n (server.request macos remembered).2.2
      else []

theorem isList_request {macos : Bool} {remembered : Option Bytes}
    (lists : ∀ command, remembered = some command → isList command = true) :
    ∀ command, (server.request macos remembered).2.2 = some command → isList command = true := by
  cases remembered with
  | none => exact fun _ => isList_search server
  | some _ => exact lists

/-- What is sent depends on the command that is remembered alone. -/
theorem openAll_eq (fuel : Nat) (uris : List (Uri M)) : ∀ conn : Connection M,
    (∀ command, conn.listCmd = some command → isList command = true) →
    server.openAll (fuel + 1) uris conn = server.requests conn.macos uris.length conn.listCmd := by
  induction uris with
  | nil =>
    intro conn _
    rw [ListServer.openAll, List.length_nil, ListServer.requests]
  | cons uri rest ih =>
    intro conn lists
    obtain ⟨conn', w', front, kept, type, listed, played⟩ := plays_listDirectory server fuel uri conn ⟨[], []⟩ lists
    have later : server.openAll (fuel + 1) rest conn' = server.requests conn'.macos rest.length conn'.listCmd := by
      apply ih conn'
      rw [kept]
      exact isList_request server lists
    rw [macos_congr type, kept] at later
    have opened : server.openOne (fuel + 1) uri conn =
        (.returned ((server.request conn.macos conn.listCmd).1, conn'), w') := played
    rw [ListServer.openAll, opened, List.length_cons, ListServer.requests, logged]
    simp only [listed, List.getLast?_concat, later]

/-- The same command is sent for good. -/
theorem requests_settled {macos : Bool} {remembered : Option Bytes}
    (settled : (server.request macos remembered).2.2 = remembered) :
    ∀ n, ∀ listing ∈ server.requests macos n remembered, listing.2 = some (server.request macos remembered).2.1
  | 0, _, member => nomatch member
  | n + 1, listing, member => by
    rw [ListServer.requests, settled] at member
    obtain rfl | later := List.mem_cons.mp member
    · rfl
    · split at later
      · exact requests_settled settled n listing later
      · cases later

theorem sameCommand_of_settled {macos : Bool} {command : Option Bytes}
    (same : (server.request macos command).2.1 = (server.request macos none).2.1)
    (found : (server.request macos none).2.2 = command) (settled : (server.request macos command).2.2 = command) (n : Nat) :
    SameCommand (server.requests macos n none) := by
  intro sent rest begun later member
  cases n with
  | zero => cases begun
  | succ n =>
    rw [ListServer.requests, found] at begun
    obtain ⟨first, rfl⟩ := List.cons_eq_cons.mp begun
    split at member
    · rw [requests_settled server settled n later member, same]
      exact congrArg Prod.snd first
    · cases member

theorem search_first (known : server.accepts (ascii "LIST -aL") = true) :
    server.search false = (.ok, ascii "LIST -aL", some (ascii "LIST -a")) := by
  simp [ListServer.search, candidates, known]

theorem search_second (unknown : server.accepts (ascii "LIST -aL") = false) (known : server.accepts (ascii "LIST -a") = true) :
    server.search false = (.ok, ascii "LIST -a", some (ascii "LIST -L")) := by
  simp [ListServer.search, candidates, unknown, known]

/-- The second listing is not the first, where the command that is remembered is another one. -/
theorem not_sameCommand {macos : Bool} {command next : Bytes} (found : server.search macos = (.ok, command, some next))
    (other : next ≠ command) : ¬ SameCommand (server.requests macos 2 none) := by
  intro same
  rw [ListServer.requests, ListServer.request, found] at same
  have second := same (some command) _ rfl ((server.request macos (some next)).1, some next) List.mem_cons_self
  exact other (Option.some.inj second)

theorem search_settled {macos : Bool}
    (last : macos = true ∨ (server.accepts (ascii "LIST -aL") = false ∧ server.accepts (ascii "LIST -a") = false)) :
    ((server.search macos).2.2 = none) ∨
      ((server.search macos).2.2 = some (ascii "LIST") ∧ (server.search macos).2.1 = ascii "LIST") := by
  unfold ListServer.search
  obtain rfl | ⟨first, second⟩ := last
  · cases known : server.accepts (ascii "LIST -a") <;> simp [candidates, known]
  · cases macos with
    | true => simp [candidates, second]
    | false => cases known : server.accepts (ascii "LIST -L") <;> simp [candidates, first, second, known]

/-- The best candidate for a server is remembered only where there is none behind it. -/
theorem list_command_remembered (conn : Connection M) (fuel : Nat) :
    (∀ uris : List (Uri M), SameCommand (server.openAll (fuel + 1) uris { conn with listCmd := none })) ↔
      conn.macos = true ∨ (server.accepts (ascii "LIST -aL") = false ∧ server.accepts (ascii "LIST -a") = false) := by
  have fresh (uris : List (Uri M)) : server.openAll (fuel + 1) uris { conn with listCmd := none } =
      server.requests conn.macos uris.length none :=
    openAll_eq server fuel uris { conn with listCmd := none } fun _ known => by cases known
  simp only [fresh]
  constructor
  · intro same
    by_contra other
    obtain ⟨notMacos, accepted⟩ := not_or.mp other
    have twice : SameCommand (server.requests conn.macos 2 none) := same [conn.uri, conn.uri]
    rw [Bool.eq_false_iff.mpr notMacos] at twice
    cases first : server.accepts (ascii "LIST -aL") with
    | true => exact not_sameCommand server (search_first server first) (by decide) twice
    | false =>
      cases second : server.accepts (ascii "LIST -a") with
      | true => exact not_sameCommand server (search_second server first second) (by decide) twice
      | false => exact accepted ⟨first, second⟩
  · intro last uris
    obtain again | ⟨plain, sent⟩ := search_settled server last
    · exact sameCommand_of_settled server rfl again again _
    · have listed : (server.request conn.macos (some (ascii "LIST"))).2.1 = (server.request conn.macos none).2.1 := sent.symm
      exact sameCommand_of_settled server listed plain rfl _

/-- A server that lists with each of the candidates. -/
def everyCandidate : ListServer := ⟨fun _ => true, ascii "(127,0,0,1,4,1)", (ascii "127.0.0.1", 1025), by decide +kernel⟩

def listedHost : Uri Unit := .toplevel ⟨some (ascii "/pub"), none, ascii "ftp", some ()⟩
  ⟨some (ascii "h"), 0, none, none⟩

/-- The first listing is not one of links, and the second is. -/
theorem second_listing_differs :
    everyCandidate.openAll 1 [listedHost, listedHost] (Connection.new listedHost) =
        [(.ok, some (ascii "LIST -aL")), (.ok, some (ascii "LIST -a"))] ∧
      ¬ SameCommand (everyCandidate.openAll 1 [listedHost, listedHost] (Connection.new listedHost)) := by
  have opened : everyCandidate.openAll 1 [listedHost, listedHost] (Connection.new listedHost) =
      [(.ok, some (ascii "LIST -aL")), (.ok, some (ascii "LIST -a"))] := by decide +kernel
  refine ⟨opened, fun same => ?_⟩
  have second := same _ _ opened _ (List.mem_singleton_self _)
  exact absurd second (by decide)

end Sequences

end GnomeVfs.Ftp
