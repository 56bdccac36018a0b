import GnomeVfs.Environment
import GnomeVfs.SocketBuffer
import GnomeVfs.Uri

/- The control connection of the FTP method: what is sent on it, and how the responses are read. -/
namespace GnomeVfs.Ftp

open Interaction

/-- The part of the method that an exchange on a control connection belongs to. -/
inductive Phase where
  | probe | greeting | login | setup | command | hidden | transfer | candidate | listing | seek | create | close
  deriving DecidableEq

/-- What is done with a control connection and the data connection that belongs to it. -/
inductive ControlReq where
  | write (phase : Phase) (line : Bytes)
  | response (phase : Phase)
  | dataConnect (host : Bytes) (port : Int)
  | dataRead
  | dataClose
  deriving DecidableEq

/-- A response: its code, and the text behind it. -/
structure Response where
  code : Nat
  message : Bytes
  deriving DecidableEq

abbrev ControlReq.Resp : ControlReq → Type
  | .write _ _ => VfsResult
  | .response _ => Except Socket.Failure Response
  | .dataConnect _ _ => VfsResult
  | .dataRead => VfsResult × Bytes
  | .dataClose => Unit

/-- There is no fuel left, or a connection is used that is not there. -/
inductive Stop where
  | outOfFuel
  | dangling
  deriving DecidableEq

inductive Operation where
  | nothing | read | write | readdir
  deriving DecidableEq

/-- `FtpConnection`, less its sockets and its pool. -/
structure Connection (Method : Type) where
  uri : Uri Method
  responseCode : Int
  responseMessage : Option Bytes
  hasData : Bool
  offset : Int
  operation : Operation
  serverType : Option Bytes
  fivefifty : VfsResult
  listCmd : Option Bytes
  deriving DecidableEq

/-- The connection that `ftp_connection_create` begins with. -/
def Connection.new {Method : Type} (uri : Uri Method) : Connection Method :=
  ⟨uri, -1, none, false, 0, .nothing, none, .notFound, none⟩

section Texts

def carriageReturn : UInt8 := 13
def lineFeed : UInt8 := 10

/-- `%d`. -/
def printInt (n : Int) : Bytes := if n < 0 then 45 :: decimal n.natAbs else decimal n.natAbs

/-- `%o`. -/
def octal (n : Nat) : Bytes :=
  if n = 0 then [48] else (Nat.digits 8 n).reverse.map fun d => UInt8.ofNat (48 + d)

def isSpace (c : UInt8) : Bool := c = 32 || (9 ≤ c && c ≤ 13)

/-- `%d` of `sscanf`, and the text behind the number. -/
def scanInt (s : Bytes) : Option (Int × Bytes) :=
  let s := s.dropWhile isSpace
  let digits := match s with
    | c :: rest => if c = 45 ∨ c = 43 then rest else s
    | [] => []
  let number := digits.takeWhile isDigit
  if number = [] then none
  else
    let value : Nat := number.foldl (fun n c => n * 10 + (c.toNat - 48)) 0
    some (if s.head? = some 45 then -(value : Int) else value, digits.dropWhile isDigit)

/-- `%d` and a comma, as often as this. -/
def scanInts : Nat → Bytes → Option (List Int)
  | 0, _ => some []
  | 1, s => (scanInt s).map fun scanned => [scanned.1]
  | n + 2, s => do
    let (value, rest) ← scanInt s
    match rest with
    | 44 :: rest => (scanInts (n + 1) rest).map (value :: ·)
    | _ => none

/-- The address in the response to `PASV`. -/
def parsePasv (message : Bytes) : Option (Bytes × Int) :=
  match strchr message 40 with
  | some (_ :: rest) =>
    match scanInts 6 rest with
    | some [a1, a2, a3, a4, p1, p2] =>
      some (printInt a1 ++ chrDot :: (printInt a2 ++ chrDot :: (printInt a3 ++ chrDot :: printInt a4)), p1 * 256 + p2)
    | _ => none
  | _ => none

/-- `ftp_response_to_vfs_result`. -/
def ftpResponseToVfsResult (response : Int) (fivefifty : VfsResult) : VfsResult :=
  if response = 421 ∨ response = 426 then .cancelled
  else if response = 425 then .accessDenied
  else if response = 530 ∨ response = 331 ∨ response = 332 ∨ response = 532 then .loginFailed
  else if response = 450 ∨ response = 451 ∨ response = 551 then .notFound
  else if response = 504 then .badParameters
  else if response = 550 then fivefifty
  else if response = 452 ∨ response = 552 then .noSpace
  else if response = 553 then .badFile
  else if 100 ≤ response ∧ response < 400 then .ok
  else if 400 ≤ response ∧ response < 500 then .generic
  else if 500 ≤ response ∧ response < 600 then .internal
  else .generic

/-- `g_path_get_dirname`. -/
def pathGetDirname (file : Bytes) : Bytes :=
  match file.reverse.dropWhile (· ≠ chrSlash) with
  | [] => [chrDot]
  | upTo =>
    match upTo.dropWhile (· = chrSlash) with
    | [] => [chrSlash]
    | name => name.reverse

/-- `g_path_get_basename`. -/
def pathGetBasename (file : Bytes) : Bytes :=
  if file = [] then [chrDot]
  else
    match file.reverse.dropWhile (· = chrSlash) with
    | [] => [chrSlash]
    | name => (name.takeWhile (· ≠ chrSlash)).reverse

variable {Method : Type}

/-- The path that a URI names, without a slash at its end. -/
def commandPath (uri : Uri Method) : Bytes :=
  let unescaped := match uri.element.text.bind (unescapeString [chrSlash]) with
    | some (c :: rest) => c :: rest
    | _ => [chrSlash]
  if 1 < unescaped.length ∧ unescaped.getLast? = some chrSlash then unescaped.dropLast else unescaped

end Texts

section Conversation

variable {Method : Type}

abbrev Conversation (Method : Type) := Action ControlReq.Resp Stop (Connection Method)

def ask (r : ControlReq) : Conversation Method r.Resp := Action.ask r

/-- `do_control_write`. -/
def doControlWrite (phase : Phase) (command : Bytes) : Conversation Method VfsResult :=
  ask (.write phase (command ++ [carriageReturn, lineFeed]))

/-- `get_response`. -/
def getResponse (phase : Phase) : Conversation Method VfsResult := do
  match ← ask (.response phase) with
  | .error failure => return failure.1
  | .ok response =>
    modify fun conn => { conn with responseCode := response.code, responseMessage := some response.message }
    return ftpResponseToVfsResult response.code (← get).fivefifty

def doBasicCommand (phase : Phase) (command : Bytes) : Conversation Method VfsResult := do
  let result ← doControlWrite phase command
  if result ≠ .ok then return result
  getResponse phase

def doPathCommand (phase : Phase) (command : Bytes) (uri : Uri Method) : Conversation Method VfsResult := do
  let path := commandPath uri
  let result ← doBasicCommand phase (ascii "CWD " ++ pathGetDirname path)
  if result ≠ .ok then return result
  doBasicCommand phase (command ++ 32 :: pathGetBasename path)

def closeData : Conversation Method Unit := do
  ask .dataClose
  modify fun conn => { conn with hasData := false }

/-- The data connection is closed again where the exchange fails. -/
def closeUnlessOk (exchange : Conversation Method VfsResult) : Conversation Method VfsResult := do
  let result ← exchange
  if result ≠ .ok then closeData
  return result

/-- The transfer is to begin where the last one got to. -/
def restart (phase : Phase) : Conversation Method VfsResult := do
  let conn ← get
  if conn.offset ≠ 0 then doBasicCommand phase (ascii "REST " ++ printInt conn.offset) else return .ok

/-- The data connection is made, and the command is sent. -/
def transferTo (phase : Phase) (command : Bytes) (address : Bytes × Int) : Conversation Method VfsResult := do
  let result ← ask (.dataConnect address.1 address.2)
  if result ≠ .ok then return result
  modify fun conn => { conn with hasData := true }
  closeUnlessOk do
    let result ← restart phase
    if result ≠ .ok then return result
    doBasicCommand phase command

def doTransferCommand (phase : Phase) (command : Bytes) : Conversation Method VfsResult := do
  let result ← doBasicCommand phase (ascii "TYPE I")
  if result ≠ .ok then return result
  let result ← doBasicCommand phase (ascii "PASV")
  if result ≠ .ok then return result
  match (← get).responseMessage.bind parsePasv with
  | none => return .corruptedData
  | some address => transferTo phase command address

def doPathTransferCommand (phase : Phase) (command : Bytes) (uri : Uri Method) : Conversation Method VfsResult := do
  let path := commandPath uri
  let result ← doBasicCommand phase (ascii "CWD " ++ pathGetDirname path)
  if result ≠ .ok then return result
  doTransferCommand phase (command ++ 32 :: pathGetBasename path)

def endTransfer (phase : Phase) : Conversation Method VfsResult := do
  if (← get).hasData then closeData
  getResponse phase

/-- `ftp_login`, through a proxy or not. -/
def ftpLogin (proxied : Bool) (user password : Bytes) : Conversation Method VfsResult := do
  let host := (← get).uri.getToplevel.hostName.getD (ascii "(null)")
  let result ← doBasicCommand .login (ascii "USER " ++ user ++ if proxied then chrAt :: host else [])
  if 300 ≤ (← get).responseCode ∧ (← get).responseCode < 400 then
    doBasicCommand .login (ascii "PASS " ++ password)
  else return result

end Conversation

end GnomeVfs.Ftp
