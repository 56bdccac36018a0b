import Mathlib.Data.List.TakeWhile
import GnomeVfs.FtpControl

/- Which commands a URI can make the FTP method send. -/
namespace GnomeVfs.Ftp

open Interaction

section Paths

variable {c : UInt8} {file : Bytes}

theorem mem_pathGetDirname (slash : c ≠ chrSlash) (dot : c ≠ chrDot) :
    c ∈ pathGetDirname file ↔ c ∈ file.reverse.dropWhile (· ≠ chrSlash) := by
  have kept : ∀ upTo : Bytes, c ∈ upTo.dropWhile (· = chrSlash) ↔ c ∈ upTo := by
    intro upTo
    have split := List.takeWhile_append_dropWhile (p := fun x : UInt8 => decide (x = chrSlash)) (l := upTo)
    have front : c ∉ upTo.takeWhile (· = chrSlash) := by
      intro member
      exact slash (by simpa using List.mem_takeWhile_imp member)
    nth_rewrite 2 [← split]
    rw [List.mem_append]
    exact ⟨Or.inr, fun either => either.resolve_left front⟩
  rw [pathGetDirname]
  split
  · rename_i none
    rw [none]
    simp [dot]
  · have same := kept (file.reverse.dropWhile (· ≠ chrSlash))
    split
    · rename_i none
      rw [none] at same
      rw [← same]
      simp [slash]
    · rw [← same]
      exact List.mem_reverse

theorem mem_pathGetBasename (slash : c ≠ chrSlash) (dot : c ≠ chrDot) (member : c ∈ pathGetBasename file) :
    c ∈ file := by
  rw [pathGetBasename] at member
  split at member
  · exact absurd (List.mem_singleton.mp member) dot
  · split at member
    · exact absurd (List.mem_singleton.mp member) slash
    · have name := (List.takeWhile_sublist _).mem (List.mem_reverse.mp member)
      exact List.mem_reverse.mp ((List.dropWhile_sublist _).mem name)

/-- The directory and the name of a file have the bytes of the file, apart from slashes and dots. -/
theorem mem_dirname_or_basename (slash : c ≠ chrSlash) (dot : c ≠ chrDot) :
    c ∈ pathGetDirname file ∨ c ∈ pathGetBasename file ↔ c ∈ file := by
  constructor
  · rintro (directory | name)
    · have front := (mem_pathGetDirname slash dot).mp directory
      exact List.mem_reverse.mp ((List.dropWhile_sublist _).mem front)
    · exact mem_pathGetBasename slash dot name
  · intro member
    have split := List.takeWhile_append_dropWhile (p := fun x : UInt8 => decide (x ≠ chrSlash)) (l := file.reverse)
    have either := List.mem_reverse.mpr member
    rw [← split, List.mem_append] at either
    rcases either with behind | front
    · -- there is something behind the last slash, which is the name
      right
      have last : file.reverse.dropWhile (· = chrSlash) = file.reverse := by
        cases here : file.reverse with
        | nil =>
          rw [here] at behind
          cases behind
        | cons first rest =>
          rw [here] at behind
          by_cases first_slash : first = chrSlash
          · simp [first_slash] at behind
          · simp [first_slash]
      rw [pathGetBasename, if_neg (List.ne_nil_of_mem member), last]
      split
      · rename_i none
        rw [none] at behind
        cases behind
      · exact List.mem_reverse.mpr behind
    · exact Or.inl ((mem_pathGetDirname slash dot).mpr front)

variable {Method : Type} {uri : Uri Method}

theorem mem_commandPath (slash : c ≠ chrSlash) : c ∈ commandPath uri ↔
    ∃ path, uri.element.text.bind (unescapeString [chrSlash]) = some path ∧ c ∈ path := by
  have whole : ∀ unescaped : Bytes,
      c ∈ (if 1 < unescaped.length ∧ unescaped.getLast? = some chrSlash then unescaped.dropLast else unescaped) ↔
        c ∈ unescaped := by
    intro unescaped
    split
    · rename_i trailing
      obtain ⟨front, split⟩ := List.getLast?_eq_some_iff.mp trailing.2
      rw [split, List.dropLast_concat, List.mem_append, List.mem_singleton]
      exact ⟨Or.inl, fun either => either.resolve_right slash⟩
    · rfl
  rw [commandPath, whole]
  split
  · rename_i first rest here
    rw [here]
    exact ⟨fun member => ⟨_, rfl, member⟩, fun ⟨path, same, member⟩ => by cases same; exact member⟩
  · rename_i other
    constructor
    · intro member
      exact absurd (List.mem_singleton.mp member) slash
    · rintro ⟨path, here, member⟩
      cases path with
      | nil => cases member
      | cons first rest => exact absurd here (other first rest)

end Paths

section Lines

/-- What is sent is one command: its only line feed is the last of the bytes. -/
def OneLine (sent : Bytes) : Prop := ∃ command, sent = command ++ [carriageReturn, lineFeed] ∧ lineFeed ∉ command

theorem oneLine_iff {command : Bytes} : OneLine (command ++ [carriageReturn, lineFeed]) ↔ lineFeed ∉ command := by
  constructor
  · rintro ⟨same, equal, single⟩
    rw [List.append_cancel_right equal]
    exact single
  · exact fun single => ⟨command, rfl, single⟩

def ControlReq.Single : ControlReq → Prop
  | .write _ line => OneLine line
  | _ => True

variable {Method α : Type}

/-- Whatever the server answers, each line is one command, and `Q` holds at the end. -/
def Tells (x : Conversation Method α) (conn : Connection Method) (Q : α → Connection Method → Prop) : Prop :=
  Action.safe (fun (_ : Unit) _ _ _ => True) (fun _ => ControlReq.Single) x conn (fun a conn _ => Q a conn)
    (fun _ _ => True) ()

/-- Each line that is written in a run is one command. -/
def Sends (x : Conversation Method α) (conn : Connection Method) : Prop :=
  ∀ trace out, Runs (x conn) trace out → ∀ phase line answer, ⟨.write phase line, answer⟩ ∈ trace → OneLine line

instance (r : ControlReq) : Nonempty r.Resp := by
  cases r with
  | write phase line => exact ⟨VfsResult.ok⟩
  | response phase => exact ⟨.ok ⟨200, []⟩⟩
  | dataConnect host port => exact ⟨VfsResult.ok⟩
  | dataRead => exact ⟨(.ok, [])⟩
  | dataClose => exact ⟨()⟩

theorem sends_iff {x : Conversation Method α} {conn : Connection Method} :
    Sends x conn ↔ Tells x conn fun _ _ => True := by
  rw [Tells, Action.safe, Prog.safe_iff_runs]
  constructor
  · intro sends trace out run e member
    obtain ⟨request, answer⟩ := e
    cases request with
    | write phase line => exact sends trace out run phase line answer member
    | response _ => trivial
    | dataConnect _ _ => trivial
    | dataRead => trivial
    | dataClose => trivial
  · intro tells trace out run phase line answer member
    exact tells trace out run _ member

variable {conn : Connection Method} {phase : Phase} {command : Bytes} {Q : VfsResult → Connection Method → Prop}

theorem tells_mono {x : Conversation Method α} {Q Q' : α → Connection Method → Prop} (tells : Tells x conn Q)
    (weaker : ∀ a conn, Q a conn → Q' a conn) : Tells x conn Q' := by
  rw [Tells] at tells ⊢
  exact Action.safe_mono tells (fun a conn _ => weaker a conn) fun _ _ => id

theorem tells_bind {β : Type} {x : Conversation Method β} {f : β → Conversation Method α}
    {Q : α → Connection Method → Prop} :
    Tells (x >>= f) conn Q ↔ Tells x conn fun b conn => Tells (f b) conn Q := by
  simp only [Tells, Action.safe_bind]

theorem tells_get {f : Connection Method → Conversation Method α} {Q : α → Connection Method → Prop} :
    Tells (get >>= f) conn Q ↔ Tells (f conn) conn Q := Iff.rfl

/-- The connection after a response. -/
def Connection.heard (conn : Connection Method) (response : Response) : Connection Method :=
  { conn with responseCode := response.code, responseMessage := some response.message }

theorem tells_getResponse : Tells (getResponse phase) conn Q ↔ (∀ failure : Socket.Failure, Q failure.1 conn) ∧
    ∀ response, Q (ftpResponseToVfsResult response.code conn.fivefifty) (conn.heard response) := by
  rw [getResponse, tells_bind]
  constructor
  · intro tells
    obtain ⟨-, answers⟩ := tells
    exact ⟨fun failure => answers (.error failure) () trivial, fun response => answers (.ok response) () trivial⟩
  · intro holds
    refine ⟨trivial, ?_⟩
    intro answer _ _
    cases answer with
    | error failure => exact holds.1 failure
    | ok response => exact holds.2 response

theorem tells_doBasicCommand : Tells (doBasicCommand phase command) conn Q ↔
    lineFeed ∉ command ∧ (∀ result, result ≠ .ok → Q result conn) ∧
      ∀ response, Q (ftpResponseToVfsResult response.code conn.fivefifty) (conn.heard response) := by
  have written : Tells (doControlWrite phase command : Conversation Method VfsResult) conn
      (fun result conn => Tells (if result ≠ .ok then pure result else getResponse phase) conn Q) ↔
      OneLine (command ++ [carriageReturn, lineFeed]) ∧
        ∀ result, Tells (if result ≠ .ok then pure result else getResponse phase) conn Q := by
    refine and_congr_right fun _ => ?_
    exact ⟨fun answers result => answers result () trivial, fun answers result _ _ => answers result⟩
  rw [doBasicCommand, tells_bind]
  refine written.trans ?_
  rw [oneLine_iff]
  refine and_congr_right fun _ => ?_
  constructor
  · intro answers
    refine ⟨?_, ?_⟩
    · intro result failed
      have ended := answers result
      rw [if_pos failed] at ended
      exact ended
    · have read := answers .ok
      rw [if_neg (by simp)] at read
      exact (tells_getResponse.mp read).2
  · rintro ⟨failed, responded⟩ result
    split
    · rename_i here
      exact failed result here
    · exact tells_getResponse.mpr ⟨fun failure => failed failure.1 failure.2, responded⟩

theorem tells_check {next : Conversation Method VfsResult} {result : VfsResult} :
    Tells (if result ≠ .ok then pure result else next) conn Q ↔
      (result ≠ .ok → Q result conn) ∧ (result = .ok → Tells next conn Q) := by
  by_cases fine : result = .ok
  · rw [if_neg (not_not.mpr fine)]
    exact ⟨fun tells => ⟨fun failed => absurd fine failed, fun _ => tells⟩, fun both => both.2 fine⟩
  · rw [if_pos fine]
    exact ⟨fun holds => ⟨fun _ => holds, fun here => absurd here fine⟩, fun both => both.1 fine⟩

theorem tells_then {next : Conversation Method VfsResult} :
    Tells (do
      let result ← doBasicCommand phase command
      if result ≠ .ok then return result
      next) conn (fun _ _ => True) ↔
      lineFeed ∉ command ∧ ∀ response, ftpResponseToVfsResult response.code conn.fivefifty = .ok →
        Tells next (conn.heard response) fun _ _ => True := by
  rw [tells_bind, tells_doBasicCommand]
  refine and_congr_right fun _ => ⟨?_, ?_⟩
  · intro both response fine
    exact (tells_check.mp (both.2 response)).2 fine
  · intro later
    refine ⟨fun result failed => tells_check.mpr ⟨fun _ => trivial, fun fine => absurd fine failed⟩, ?_⟩
    intro response
    exact tells_check.mpr ⟨fun _ => trivial, later response⟩

end Lines

section Uris

variable {Method : Type} {uri : Uri Method} {phase : Phase} {conn : Connection Method} {command : Bytes}

/-- The commands that `do_path_command` is called with. -/
inductive PathCommand where
  | cwd | mkd | rmd | dele | rnfr | rnto
  | siteChmod (perm : Nat)
  deriving DecidableEq

def PathCommand.text : PathCommand → Bytes
  | .cwd => ascii "CWD"
  | .mkd => ascii "MKD"
  | .rmd => ascii "RMD"
  | .dele => ascii "DELE"
  | .rnfr => ascii "RNFR"
  | .rnto => ascii "RNTO"
  | .siteChmod perm => ascii "SITE CHMOD " ++ octal perm

/-- The commands that `do_path_transfer_command` is called with. -/
inductive TransferCommand where
  | retr | stor
  deriving DecidableEq

def TransferCommand.text : TransferCommand → Bytes
  | .retr => ascii "RETR"
  | .stor => ascii "STOR"

/-- The user name and password that `ftp_connection_create` logs in with, where `asked` is what the
keyring or the user gives. -/
def credentials (uri : Uri Method) (asked : Bytes × Bytes) : Bytes × Bytes :=
  match uri.getToplevel.userName with
  | none => asked
  | some user =>
    if user ≠ ascii "anonymous" ∧ uri.getToplevel.password = none then asked
    else (user, uri.getToplevel.password.getD (ascii "nobody@gnome.org"))

theorem digit_ne_lineFeed {d : Nat} (small : d < 10) : UInt8.ofNat (48 + d) ≠ lineFeed := by
  intro same
  have value := congrArg UInt8.toNat same
  rw [UInt8.toNat_ofNat_of_lt' (show 48 + d < UInt8.size by unfold UInt8.size; omega)] at value
  have ten : lineFeed.toNat = 10 := rfl
  omega

theorem lineFeed_not_mem_digits {base n : Nat} (small : 1 < base) (few : base ≤ 10) :
    lineFeed ∉ (Nat.digits base n).reverse.map fun d => UInt8.ofNat (48 + d) := by
  intro member
  obtain ⟨d, digit, same⟩ := List.mem_map.mp member
  have bound := Nat.digits_lt_base small (List.mem_reverse.mp digit)
  exact digit_ne_lineFeed (by omega) same

theorem lineFeed_not_mem_printInt (n : Int) : lineFeed ∉ printInt n := by
  have number : lineFeed ∉ decimal n.natAbs := by
    rw [decimal]
    split
    · decide
    · exact lineFeed_not_mem_digits (by omega) (Nat.le_refl _)
  rw [printInt]
  split
  · rw [List.mem_cons, not_or]
    exact ⟨by decide, number⟩
  · exact number

theorem PathCommand.lineFeed_not_mem (command : PathCommand) : lineFeed ∉ command.text := by
  cases command with
  | siteChmod perm =>
    rw [PathCommand.text, List.mem_append, not_or]
    refine ⟨by decide, ?_⟩
    rw [octal]
    split
    · decide
    · exact lineFeed_not_mem_digits (by omega) (by omega)
  | _ => decide

theorem TransferCommand.lineFeed_not_mem (command : TransferCommand) : lineFeed ∉ command.text := by
  cases command <;> decide

theorem path_lines (plain : lineFeed ∉ command) :
    lineFeed ∉ ascii "CWD " ++ pathGetDirname (commandPath uri) ∧
      lineFeed ∉ command ++ 32 :: pathGetBasename (commandPath uri) ↔ lineFeed ∉ commandPath uri := by
  have bytes : lineFeed ∈ pathGetDirname (commandPath uri) ∨ lineFeed ∈ pathGetBasename (commandPath uri) ↔ _ :=
    mem_dirname_or_basename (by decide) (by decide)
  rw [← bytes, not_or, List.mem_append, List.mem_append, List.mem_cons]
  have first : lineFeed ∉ ascii "CWD " := by decide
  have space : lineFeed ≠ 32 := by decide
  tauto

theorem sends_doPathCommand (plain : lineFeed ∉ command) :
    Sends (doPathCommand phase command uri) conn ↔ lineFeed ∉ commandPath uri := by
  rw [sends_iff, ← path_lines plain, doPathCommand, tells_then]
  constructor
  · intro tells
    have fine : ftpResponseToVfsResult 200 conn.fivefifty = .ok := rfl
    exact ⟨tells.1, (tells_doBasicCommand.mp (tells.2 ⟨200, []⟩ fine)).1⟩
  · rintro ⟨first, second⟩
    refine ⟨first, fun response _ => ?_⟩
    exact tells_doBasicCommand.mpr ⟨second, fun _ _ => trivial, fun _ => trivial⟩

theorem tells_closeUnlessOk {x : Conversation Method VfsResult} :
    Tells (closeUnlessOk x) conn (fun _ _ => True) ↔ Tells x conn fun _ _ => True := by
  rw [closeUnlessOk, tells_bind]
  refine ⟨fun tells => tells_mono tells fun _ _ _ => trivial, fun tells => tells_mono tells ?_⟩
  intro result conn _
  by_cases failed : result ≠ .ok
  · rw [if_pos failed]
    exact ⟨trivial, fun _ _ _ => trivial⟩
  · rw [if_neg failed]
    trivial

theorem tells_restart {Q : VfsResult → Connection Method → Prop} (tells : ∀ result conn, Q result conn) :
    Tells (restart phase) conn Q := by
  rw [restart, tells_get]
  split
  · refine tells_doBasicCommand.mpr ⟨?_, fun _ _ => tells _ _, fun _ => tells _ _⟩
    rw [List.mem_append, not_or]
    exact ⟨by decide, lineFeed_not_mem_printInt _⟩
  · exact tells _ _

theorem tells_restart_ok {Q : VfsResult → Connection Method → Prop} (tells : Tells (restart phase) conn Q) :
    ∃ conn, Q .ok conn := by
  rw [restart, tells_get] at tells
  split at tells
  · exact ⟨_, (tells_doBasicCommand.mp tells).2.2 ⟨200, []⟩⟩
  · exact ⟨conn, tells⟩

theorem tells_startTransfer : Tells (closeUnlessOk do
    let result ← restart phase
    if result ≠ .ok then return result
    doBasicCommand phase command) conn (fun _ _ => True) ↔ lineFeed ∉ command := by
  rw [tells_closeUnlessOk, tells_bind]
  have last : ∀ conn : Connection Method,
      Tells (doBasicCommand phase command) conn (fun _ _ => True) ↔ lineFeed ∉ command := by
    intro conn
    exact tells_doBasicCommand.trans ⟨fun tells => tells.1, fun plain => ⟨plain, fun _ _ => trivial, fun _ => trivial⟩⟩
  constructor
  · intro tells
    obtain ⟨conn, tells⟩ := tells_restart_ok tells
    exact (last conn).mp ((tells_check.mp tells).2 rfl)
  · intro plain
    apply tells_restart
    intro result conn
    exact tells_check.mpr ⟨fun _ => trivial, fun _ => (last conn).mpr plain⟩

theorem tells_transferTo {address : Bytes × Int} :
    Tells (transferTo phase command address) conn (fun _ _ => True) ↔ lineFeed ∉ command := by
  rw [transferTo, tells_bind]
  constructor
  · intro tells
    have connected := tells.2 VfsResult.ok () trivial
    exact tells_startTransfer.mp connected
  · intro plain
    refine ⟨trivial, fun result _ _ => tells_check.mpr ⟨fun _ => trivial, fun _ => ?_⟩⟩
    rw [tells_bind]
    exact tells_startTransfer.mpr plain

theorem tells_doTransferCommand : Tells (doTransferCommand phase command) conn (fun _ _ => True) ↔
    lineFeed ∉ command := by
  rw [doTransferCommand, tells_then]
  constructor
  · intro tells
    have typed := tells.2 ⟨200, []⟩ rfl
    rw [tells_then] at typed
    have passive := typed.2 ⟨227, ascii "(0,0,0,0,0,0)"⟩ rfl
    rw [tells_get] at passive
    have parsed : Tells (transferTo phase command (ascii "0.0.0.0", 0)) _ fun _ _ => True := passive
    exact tells_transferTo.mp parsed
  · intro plain
    refine ⟨by decide, fun _ _ => ?_⟩
    rw [tells_then]
    refine ⟨by decide, fun response _ => ?_⟩
    rw [tells_get]
    split
    · trivial
    · exact tells_transferTo.mpr plain

theorem sends_doPathTransferCommand (plain : lineFeed ∉ command) :
    Sends (doPathTransferCommand phase command uri) conn ↔ lineFeed ∉ commandPath uri := by
  rw [sends_iff, ← path_lines plain, doPathTransferCommand, tells_then]
  constructor
  · intro tells
    have fine : ftpResponseToVfsResult 200 conn.fivefifty = .ok := rfl
    exact ⟨tells.1, tells_doTransferCommand.mp (tells.2 ⟨200, []⟩ fine)⟩
  · rintro ⟨first, second⟩
    exact ⟨first, fun response _ => tells_doTransferCommand.mpr second⟩

/-- What is sent to log in has no line feed. -/
def PlainLogin (proxied : Bool) (user password : Bytes) (uri : Uri Method) : Prop :=
  lineFeed ∉ user ∧ lineFeed ∉ password ∧
    (proxied = true → ∀ host, uri.getToplevel.hostName = some host → lineFeed ∉ host)

theorem lineFeed_not_mem_user {proxied : Bool} {user : Bytes} :
    lineFeed ∉ ascii "USER " ++ user ++
        (if proxied then chrAt :: uri.getToplevel.hostName.getD (ascii "(null)") else []) ↔
      lineFeed ∉ user ∧ (proxied = true → ∀ host, uri.getToplevel.hostName = some host → lineFeed ∉ host) := by
  rw [List.mem_append, List.mem_append, not_or, not_or]
  have first : lineFeed ∉ ascii "USER " := by decide
  have behind : lineFeed ∉ (if proxied then chrAt :: uri.getToplevel.hostName.getD (ascii "(null)") else []) ↔
      (proxied = true → ∀ host, uri.getToplevel.hostName = some host → lineFeed ∉ host) := by
    cases proxied with
    | false => simp
    | true =>
      have sign : lineFeed ≠ chrAt := by decide
      rw [if_pos rfl, List.mem_cons, not_or]
      cases uri.getToplevel.hostName with
      | none => exact ⟨fun _ _ _ never => (by cases never), fun _ => ⟨sign, by decide⟩⟩
      | some name =>
        refine ⟨fun holds _ host same => ?_, fun holds => ⟨sign, holds rfl name rfl⟩⟩
        cases same
        exact holds.2
  rw [behind]
  tauto

/-- The name and the password are sent, and through a proxy the host as well. -/
theorem tells_ftpLogin {proxied : Bool} {user password : Bytes} :
    Tells (ftpLogin proxied user password) conn (fun _ _ => True) ↔ PlainLogin proxied user password conn.uri := by
  have second : ∀ conn : Connection Method,
      Tells (doBasicCommand .login (ascii "PASS " ++ password)) conn (fun _ _ => True) ↔ lineFeed ∉ password := by
    intro conn
    have first : lineFeed ∉ ascii "PASS " := by decide
    rw [tells_doBasicCommand, List.mem_append, not_or]
    exact ⟨fun tells => tells.1.2, fun plain => ⟨⟨first, plain⟩, fun _ _ => trivial, fun _ => trivial⟩⟩
  have either : ∀ (result : VfsResult) (conn : Connection Method), lineFeed ∉ password → Tells (do
      if 300 ≤ (← get).responseCode ∧ (← get).responseCode < 400 then
        doBasicCommand .login (ascii "PASS " ++ password)
      else return result) conn fun _ _ => True := by
    intro result conn plain
    rw [tells_get, tells_get]
    split
    · exact (second conn).mpr plain
    · trivial
  rw [ftpLogin, tells_get, tells_bind, tells_doBasicCommand, lineFeed_not_mem_user]
  constructor
  · rintro ⟨⟨name, host⟩, -, responded⟩
    have asked := responded ⟨331, []⟩
    rw [tells_get, tells_get, if_pos (by simp [Connection.heard])] at asked
    exact ⟨name, (second _).mp asked, host⟩
  · rintro ⟨name, plain, host⟩
    exact ⟨⟨name, host⟩, fun result _ => either result conn plain, fun response => either _ _ plain⟩

end Uris

section Injection

variable {Method : Type}

/-- The keyring and the user are handed the name in the URI. They give it back, or a name without line feeds, and a
password without line feeds. -/
structure AddsNoLine (uri : Uri Method) (asked : Bytes × Bytes) : Prop where
  user : lineFeed ∉ asked.1 ∨ uri.getToplevel.userName = some asked.1
  password : lineFeed ∉ asked.2

/-- Whatever the server answers, each line that is sent for the URI is one command: on its path, and
to log in, where the keyring and the user add no line feeds. -/
structure Uninjected (proxied : Bool) (uri : Uri Method) : Prop where
  path : ∀ (phase : Phase) (command : PathCommand) (conn : Connection Method),
    Sends (doPathCommand phase command.text uri) conn
  transfer : ∀ (phase : Phase) (command : TransferCommand) (conn : Connection Method),
    Sends (doPathTransferCommand phase command.text uri) conn
  login : ∀ asked : Bytes × Bytes, AddsNoLine uri asked → ∀ conn : Connection Method,
    conn.uri = uri → Sends (ftpLogin proxied (credentials uri asked).1 (credentials uri asked).2) conn

/-- The URI has no line feed in its path, with the escapes removed, in its user name, in the password that comes with
one, nor in a host that is sent. -/
structure Plain (proxied : Bool) (uri : Uri Method) : Prop where
  path : ∀ path, uri.element.text.bind (unescapeString [chrSlash]) = some path → lineFeed ∉ path
  name : ∀ user, uri.getToplevel.userName = some user →
    lineFeed ∉ user ∧ ∀ password, uri.getToplevel.password = some password → lineFeed ∉ password
  host : proxied = true → ∀ host, uri.getToplevel.hostName = some host → lineFeed ∉ host

theorem plainPath_iff {uri : Uri Method} : lineFeed ∉ commandPath uri ↔
    ∀ path, uri.element.text.bind (unescapeString [chrSlash]) = some path → lineFeed ∉ path := by
  rw [mem_commandPath (by decide)]
  exact ⟨fun none path here member => none ⟨path, here, member⟩, fun all ⟨path, here, member⟩ => all path here member⟩

theorem credentials_cases (uri : Uri Method) (asked : Bytes × Bytes) :
    (∃ user, uri.getToplevel.userName = some user ∧
      (user = ascii "anonymous" ∨ uri.getToplevel.password ≠ none) ∧
      credentials uri asked = (user, uri.getToplevel.password.getD (ascii "nobody@gnome.org"))) ∨
    (credentials uri asked = asked ∧ ∀ user, uri.getToplevel.userName = some user →
      ¬ (user = ascii "anonymous" ∨ uri.getToplevel.password ≠ none)) := by
  rw [credentials]
  split
  · rename_i none
    exact Or.inr ⟨rfl, fun user never => by rw [none] at never; cases never⟩
  · rename_i user named
    split
    · rename_i asks
      refine Or.inr ⟨rfl, fun other same => ?_⟩
      rw [named] at same
      cases same
      tauto
    · rename_i own
      exact Or.inl ⟨user, named, by tauto, rfl⟩

theorem plainLogin_iff {proxied : Bool} {uri : Uri Method} :
    (∀ asked : Bytes × Bytes, AddsNoLine uri asked →
      PlainLogin proxied (credentials uri asked).1 (credentials uri asked).2 uri) ↔
    (∀ user, uri.getToplevel.userName = some user →
      lineFeed ∉ user ∧ ∀ password, uri.getToplevel.password = some password → lineFeed ∉ password) ∧
    (proxied = true → ∀ host, uri.getToplevel.hostName = some host → lineFeed ∉ host) := by
  constructor
  · intro plain
    refine ⟨?_, (plain ([], []) ⟨Or.inl List.not_mem_nil, List.not_mem_nil⟩).2.2⟩
    intro user named
    -- the callback gives back the name it has been handed
    have login := plain (user, []) ⟨Or.inr named, List.not_mem_nil⟩
    rcases credentials_cases uri (user, []) with ⟨other, here, -, same⟩ | ⟨same, never⟩
    · rw [named] at here
      cases here
      rw [same] at login
      refine ⟨login.1, fun password given => ?_⟩
      have second := login.2.1
      rw [given] at second
      exact second
    · rw [same] at login
      refine ⟨login.1, fun password given => absurd (Or.inr ?_) (never user named)⟩
      rw [given]
      exact Option.some_ne_none password
  · rintro ⟨own, host⟩ asked ⟨first, second⟩
    rcases credentials_cases uri asked with ⟨user, named, -, same⟩ | ⟨same, -⟩
    · obtain ⟨name, word⟩ := own user named
      rw [same]
      refine ⟨name, ?_, host⟩
      cases given : uri.getToplevel.password with
      | none =>
        show lineFeed ∉ ascii "nobody@gnome.org"
        decide
      | some password => exact word password given
    · rw [same]
      exact ⟨first.elim id fun named => (own _ named).1, second, host⟩

/-- A URI that the library accepts makes the method send single commands where it is plain, and only
there. -/
theorem uninjected_iff_plain (ctx : UriContext Method) (textUri : Bytes) (proxied : Bool) :
    (∀ uri, uriNew ctx textUri = some uri → Uninjected proxied uri) ↔
      ∀ uri, uriNew ctx textUri = some uri → Plain proxied uri := by
  refine forall_congr' fun uri => imp_congr_right fun _ => ?_
  constructor
  · intro single
    have path := (sends_doPathCommand PathCommand.cwd.lineFeed_not_mem).mp (single.path .command .cwd (.new uri))
    have login : ∀ asked : Bytes × Bytes, AddsNoLine uri asked →
        PlainLogin proxied (credentials uri asked).1 (credentials uri asked).2 uri := by
      intro asked added
      have sends := single.login asked added (.new uri) rfl
      exact tells_ftpLogin.mp (sends_iff.mp sends)
    have login := plainLogin_iff.mp login
    exact ⟨plainPath_iff.mp path, login.1, login.2⟩
  · intro plain
    have path := plainPath_iff.mpr plain.path
    refine ⟨?_, ?_, ?_⟩
    · exact fun phase command conn => (sends_doPathCommand command.lineFeed_not_mem).mpr path
    · exact fun phase command conn => (sends_doPathTransferCommand command.lineFeed_not_mem).mpr path
    · intro asked added conn same
      have login := plainLogin_iff.mpr ⟨plain.name, plain.host⟩ asked added
      apply sends_iff.mpr
      rw [tells_ftpLogin, same]
      exact login

/-- The library as far as it is asked for `ftp`. -/
def ftpContext : UriContext Unit :=
  ⟨fun method => if method = ascii "ftp" then some () else none, fun _ => none, fun _ => .control⟩

/-- With its escapes removed, the name of the file is two commands. -/
def injecting : Uri Unit :=
  .toplevel ⟨some (ascii "/a%0D%0ADELE%20b"), none, ascii "ftp", some ()⟩ ⟨some (ascii "h"), 0, none, none⟩

theorem injecting_sends : ¬ ∀ uri, uriNew ftpContext (ascii "ftp://h/a%0D%0ADELE%20b") = some uri →
    Uninjected false uri := by
  intro single
  have accepted : uriNew ftpContext (ascii "ftp://h/a%0D%0ADELE%20b") = some injecting := by decide +kernel
  have unescaped : injecting.element.text.bind (unescapeString [chrSlash]) = some (ascii "/a\r\nDELE b") := by
    decide +kernel
  have sends := (single injecting accepted).path .command .mkd (.new injecting)
  have plain := plainPath_iff.mp ((sends_doPathCommand PathCommand.mkd.lineFeed_not_mem).mp sends)
  have two : lineFeed ∈ ascii "/a\r\nDELE b" := by decide +kernel
  exact plain (ascii "/a\r\nDELE b") unescaped two

end Injection

end GnomeVfs.Ftp
