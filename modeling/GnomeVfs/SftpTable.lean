import GnomeVfs.Escape
import GnomeVfs.Result
import GnomeVfs.Transition
import GnomeVfs.Uri

/- The table of SFTP connections, by the names of the servers (`sftp-method.c`), and the moves, which are
within one server. -/
namespace GnomeVfs.Sftp.Table

open Transition

/-- A URI of the method: who and where, and the text of its path. -/
structure SftpUri extends Toplevel where
  text : Option Bytes
  deriving DecidableEq

/-- `URI_TO_PATH`. -/
def SftpUri.toPath (uri : SftpUri) : Bytes :=
  match uri.text.bind (unescapeString []) with
  | none | some [] => [chrSlash]
  | some path => path

/-- `SftpConnection`, with the URI that `sftp_connect` has opened it for. -/
structure Connection where
  uri : SftpUri
  hashName : Bytes
  refCount : Nat
  closeTimeout : Bool
  msgId : UInt32
  deriving DecidableEq

/-- The connections that have been opened, by their numbers, and `sftp_connection_table`. -/
structure State where
  connections : List Connection
  table : Bytes → Option Nat

def initial : State := ⟨[], fun _ => none⟩

namespace State

def modify (s : State) (c : Nat) (f : Connection → Connection) : State := { s with connections := s.connections.modify c f }

/-- `sftp_connection_ref`. -/
def ref (s : State) (c : Nat) : State :=
  s.modify c fun conn => { conn with refCount := conn.refCount + 1, closeTimeout := false }

/-- `sftp_connection_unref`. -/
def unref (s : State) (c : Nat) : State :=
  s.modify c fun conn =>
    { conn with refCount := conn.refCount - 1, closeTimeout := conn.closeTimeout || decide (conn.refCount - 1 = 0) }

/-- `sftp_connection_get_id`. -/
def getId (s : State) (c : Nat) : State := s.modify c fun conn => { conn with msgId := conn.msgId + 1 }

end State

def hashName (userName : Option Bytes) (hostName : Bytes) : Bytes :=
  match userName with
  | some userName => userName ++ chrAt :: hostName
  | none => hostName

/-- `sftp_get_connection`, where `sftp_connect` gives `connected`. -/
def sftpGetConnection (uri : SftpUri) (connected : VfsResult) (s : State) : (VfsResult × Option Nat) × State :=
  match uri.hostName with
  | none => ((.hostNotFound, none), s)
  | some hostName =>
    let name := hashName uri.userName hostName
    match s.table name with
    | some c => ((.ok, some c), s.ref c)
    | none =>
      if connected = .ok then
        ((.ok, some s.connections.length),
          { connections := s.connections ++ [⟨uri, name, 1, false, 1⟩]
            table := Function.update s.table name (some s.connections.length) })
      else ((connected, none), s)

/-- `do_check_same_fs`: `same_fs_return`, which stays `FALSE` without host names. -/
def doCheckSameFs (a b : SftpUri) : Bool :=
  match a.hostName, b.hostName with
  | some aHostName, some bHostName => aHostName = bHostName && a.userName.getD [] = b.userName.getD []
  | _, _ => false

inductive Request where
  | remove (path : Bytes)
  | rename (oldPath newPath : Bytes)
  deriving DecidableEq

/-- `do_move`: what it returns, and the requests that it sends, each over a connection. `removed` and
`renamed` are what `iobuf_read_result` gives for them. -/
def doMove (oldUri newUri : SftpUri) (forceReplace : Bool) (connected removed renamed : VfsResult) (s : State) :
    (VfsResult × List (Nat × Request)) × State :=
  if !doCheckSameFs oldUri newUri then ((.notSameFileSystem, []), s)
  else
    match sftpGetConnection oldUri connected s with
    | ((_, some c), s) =>
      let s := s.getId c
      let remove := if forceReplace then [(c, Request.remove newUri.toPath)] else []
      if forceReplace ∧ removed ≠ .ok ∧ removed ≠ .notFound then ((removed, remove), s.unref c)
      else ((renamed, remove ++ [(c, .rename oldUri.toPath newUri.toPath)]), s.unref c)
    | ((result, none), s) => ((result, []), s)

/-- `close_and_remove_connection`. -/
def closeAndRemoveConnection (c : Nat) (s : State) : State :=
  match s.connections[c]? with
  | none => s
  | some conn =>
    if conn.refCount ≠ 0 then s.modify c fun conn => { conn with closeTimeout := false }
    else
      { s.modify c fun conn => { conn with closeTimeout := false } with
        table := Function.update s.table conn.hashName none }

/-- What the operations and the timer do with the connections: one is looked for, and one is given back. -/
inductive Event where
  | get (uri : SftpUri) (connected : VfsResult)
  | unref (c : Nat)
  | expire (c : Nat)
  | move (oldUri newUri : SftpUri) (forceReplace : Bool) (connected removed renamed : VfsResult)
  | shutdown

def State.step (s : State) : Event → Option State
  | .get uri connected => some (sftpGetConnection uri connected s).2
  | .unref c => if (s.connections[c]?.any fun conn => conn.refCount ≠ 0) then some (s.unref c) else none
  | .expire c => if (s.connections[c]?.map Connection.closeTimeout) = some true then some (closeAndRemoveConnection c s) else none
  | .move oldUri newUri forceReplace connected removed renamed =>
    some (doMove oldUri newUri forceReplace connected removed renamed s).2
  | .shutdown => some { s with table := fun _ => none }

/-- The name under which a URI's connection is looked for. -/
def SftpUri.key (uri : SftpUri) : Option Bytes := uri.hostName.map (hashName uri.userName)

/-- What a URI names: the user, the host and the port. -/
def SftpUri.endpoint (uri : SftpUri) : Option Bytes × Option Bytes × UInt32 := (uri.userName, uri.hostName, uri.hostPort)

/-- What a connection was opened for. -/
def State.uriOf (s : State) (c : Nat) : Option SftpUri := s.connections[c]?.map Connection.uri

/-- An operation gets a connection that was opened for what its URI names, and a move sends requests only
where both URIs name the same. -/
def Talks (s : State) : Event → Prop
  | .get uri connected => ∀ result c t, sftpGetConnection uri connected s = ((result, some c), t) →
      ∃ opened, t.uriOf c = some opened ∧ opened.endpoint = uri.endpoint
  | .move oldUri newUri forceReplace connected removed renamed => ∀ c request,
      (c, request) ∈ (doMove oldUri newUri forceReplace connected removed renamed s).1.2 →
      oldUri.endpoint = newUri.endpoint
  | _ => True

/-- The URIs of an operation are among these. -/
def allowed (P : SftpUri → Prop) (_ : State) : Event → Prop
  | .get uri _ => P uri
  | .move oldUri newUri _ _ _ _ => P oldUri ∧ P newUri
  | _ => True

/-- URIs that build one name, or that are on the same file system, name the same. -/
def Separates (P : SftpUri → Prop) : Prop :=
  ∀ a b, P a → P b → ((a.key.isSome ∧ a.key = b.key) ∨ doCheckSameFs a b = true) → a.endpoint = b.endpoint

/-- What the table has under a name was opened for a URI that builds it. -/
def Named (P : SftpUri → Prop) (s : State) : Prop :=
  ∀ name c, s.table name = some c → ∃ uri, s.uriOf c = some uri ∧ uri.key = some name ∧ P uri

section Runs

variable {P : SftpUri → Prop} {s t : State} {uri : SftpUri} {connected result : VfsResult} {c : Nat} {event : Event}

theorem uriOf_modify (f : Connection → Connection) (kept : ∀ conn, (f conn).uri = conn.uri) (i : Nat) :
    (s.modify c f).uriOf i = s.uriOf i := by
  rw [State.uriOf, State.modify, List.getElem?_modify, State.uriOf]
  cases s.connections[i]? with
  | none => rfl
  | some conn =>
    by_cases same : c = i
    · simp [same, kept]
    · simp [same]

theorem Named.modify (f : Connection → Connection) (named : Named P s) (kept : ∀ conn, (f conn).uri = conn.uri) :
    Named P (s.modify c f) := by
  intro name i here
  obtain ⟨uri, opened, key⟩ := named name i here
  exact ⟨uri, (uriOf_modify f kept i).trans opened, key⟩

theorem sftpGetConnection_cases (given : sftpGetConnection uri connected s = ((result, some c), t)) :
    ∃ name, uri.key = some name ∧ (s.table name = some c ∧ t = s.ref c ∨
      c = s.connections.length ∧ t =
        { connections := s.connections ++ [⟨uri, name, 1, false, 1⟩]
          table := Function.update s.table name (some c) }) := by
  unfold sftpGetConnection at given
  split at given
  · cases given
  · rename_i hostName host
    refine ⟨hashName uri.userName hostName, by rw [SftpUri.key, host]; rfl, ?_⟩
    dsimp only at given
    split at given
    · rename_i found
      cases given
      exact .inl ⟨found, rfl⟩
    · split at given
      · cases given
        exact .inr ⟨rfl, rfl⟩
      · cases given

theorem sftpGetConnection_none (given : sftpGetConnection uri connected s = ((result, none), t)) : t = s := by
  unfold sftpGetConnection at given
  split at given
  · cases given
    rfl
  · dsimp only at given
    split at given
    · cases given
    · split at given
      · cases given
      · cases given
        rfl

theorem uriOf_ref (i : Nat) : (s.ref c).uriOf i = s.uriOf i := by
  rw [State.ref]
  refine uriOf_modify _ ?_ i
  intro conn
  rfl

theorem Named.ref (named : Named P s) : Named P (s.ref c) := by
  rw [State.ref]
  exact named.modify _ fun _ => rfl

theorem Named.unref (named : Named P s) : Named P (s.unref c) := by
  rw [State.unref]
  exact named.modify _ fun _ => rfl

theorem Named.getId (named : Named P s) : Named P (s.getId c) := by
  rw [State.getId]
  exact named.modify _ fun _ => rfl

theorem Named.expire (named : Named P s) : Named P (closeAndRemoveConnection c s) := by
  have waits : Named P (s.modify c fun conn => { conn with closeTimeout := false }) := named.modify _ fun _ => rfl
  rw [closeAndRemoveConnection]
  split
  · exact named
  · split
    · exact waits
    · rename_i conn _ _
      intro name i here
      dsimp only at here
      by_cases same : name = conn.hashName
      · rw [same, Function.update_self] at here
        cases here
      · rw [Function.update_of_ne same] at here
        exact waits name i here

/-- A connection that is got was opened for a URI of the same name. -/
theorem Named.got (named : Named P s) (member : P uri) (given : sftpGetConnection uri connected s = ((result, some c), t)) :
    Named P t ∧ ∃ opened, t.uriOf c = some opened ∧ opened.key = uri.key ∧ uri.key.isSome ∧ P opened := by
  obtain ⟨name, key, ⟨found, rfl⟩ | ⟨rfl, rfl⟩⟩ := sftpGetConnection_cases given
  · obtain ⟨opened, here, same, old⟩ := named name c found
    refine ⟨named.ref, opened, (uriOf_ref c).trans here, same.trans key.symm, ?_, old⟩
    rw [key]
    rfl
  · have last : (⟨s.connections ++ [⟨uri, name, 1, false, 1⟩], Function.update s.table name (some s.connections.length)⟩ :
        State).uriOf s.connections.length = some uri := by
      simp [State.uriOf]
    refine ⟨fun other i here => ?_, uri, last, rfl, by rw [key]; rfl, member⟩
    dsimp only at here
    by_cases same : other = name
    · subst same
      rw [Function.update_self, Option.some.injEq] at here
      subst here
      exact ⟨uri, last, key, member⟩
    · rw [Function.update_of_ne same] at here
      obtain ⟨opened, there, rest⟩ := named other i here
      refine ⟨opened, ?_, rest⟩
      have inside : i < s.connections.length := by
        by_contra outside
        rw [State.uriOf, List.getElem?_eq_none (by omega)] at there
        cases there
      rw [State.uriOf, List.getElem?_append_left inside]
      exact there

theorem Named.get (named : Named P s) (member : P uri) : Named P (sftpGetConnection uri connected s).2 := by
  rcases given : sftpGetConnection uri connected s with ⟨⟨result, found⟩, t⟩
  cases found with
  | none => rw [sftpGetConnection_none given]; exact named
  | some c => exact (named.got member given).1

theorem Named.move {newUri : SftpUri} {forceReplace : Bool} {removed renamed : VfsResult} (named : Named P s) (member : P uri) :
    Named P (doMove uri newUri forceReplace connected removed renamed s).2 := by
  rw [doMove]
  split
  · exact named
  · split
    · rename_i c t given
      have got : Named P t := (named.got member given).1
      have used : Named P ((t.getId c).unref c) := got.getId.unref
      dsimp only
      split
      · exact used
      · exact used
    · rename_i result t given
      rw [sftpGetConnection_none given]
      exact named

theorem Named.step (named : Named P s) (fits : allowed P s event) (stepped : s.step event = some t) : Named P t := by
  cases event with
  | get uri connected =>
    cases stepped
    exact named.get fits
  | unref c =>
    rw [State.step] at stepped
    split at stepped
    · cases stepped
      exact named.unref
    · cases stepped
  | expire c =>
    rw [State.step] at stepped
    split at stepped
    · cases stepped
      exact named.expire
    · cases stepped
  | move oldUri newUri forceReplace connected removed renamed =>
    cases stepped
    exact named.move fits.1
  | shutdown =>
    cases stepped
    intro name i here
    cases here

end Runs

private theorem named_initial {P : SftpUri → Prop} : Named P initial := by
  intro name c here
  cases here

theorem Named.of_run {P : SftpUri → Prop} {s : State} (run : Run State.step (allowed P) initial s) : Named P s :=
  run.keeps named_initial fun _ _ _ named fits stepped => named.step fits stepped

theorem Named.talks {P : SftpUri → Prop} {s : State} {event : Event} (named : Named P s) (separates : Separates P)
    (fits : allowed P s event) : Talks s event := by
  cases event with
  | get uri connected =>
    intro result c t given
    obtain ⟨opened, here, same, some, old⟩ := (named.got fits given).2
    exact ⟨opened, here, separates opened uri old fits (.inl ⟨by rw [same]; exact some, same⟩)⟩
  | move oldUri newUri forceReplace connected removed renamed =>
    intro c request sent
    by_cases same : doCheckSameFs oldUri newUri = true
    · exact separates oldUri newUri fits.1 fits.2 (.inr same)
    · rw [doMove, if_pos (by simp [same])] at sent
      cases sent
  | unref | expire | shutdown => trivial

private theorem get_initial {a : SftpUri} {name : Bytes} (key : a.key = some name) :
    sftpGetConnection a .ok initial =
      ((.ok, some 0), ⟨[⟨a, name, 1, false, 1⟩], Function.update (fun _ => none) name (some 0)⟩) := by
  obtain ⟨hostName, host, rfl⟩ := Option.map_eq_some_iff.mp key
  simp [sftpGetConnection, host, initial]

private theorem get_again {a b : SftpUri} {name : Bytes} (key : a.key = some name) (same : b.key = some name) :
    ∃ t, sftpGetConnection b .ok (sftpGetConnection a .ok initial).2 = ((.ok, some 0), t) ∧ t.uriOf 0 = some a := by
  rw [get_initial key]
  obtain ⟨hostName, host, rfl⟩ := Option.map_eq_some_iff.mp same
  refine ⟨State.ref ⟨[⟨a, hashName b.userName hostName, 1, false, 1⟩],
    Function.update (fun _ => none) (hashName b.userName hostName) (some 0)⟩ 0, ?_, uriOf_ref 0⟩
  simp [sftpGetConnection, host]

private theorem separates_of_talks {P : SftpUri → Prop}
    (talks : ∀ s event, Run State.step (allowed P) initial s → allowed P s event → Talks s event) : Separates P := by
  intro a b first second together
  obtain ⟨built, same⟩ | same := together
  · obtain ⟨name, key⟩ := Option.isSome_iff_exists.mp built
    obtain ⟨t, again, opened⟩ := get_again key (same.symm.trans key)
    have reached : Run State.step (allowed P) initial (sftpGetConnection a .ok initial).2 :=
      .next (.get a .ok) .refl first rfl
    obtain ⟨other, here, ends⟩ := talks _ (.get b .ok) reached second _ _ _ again
    rw [opened, Option.some.injEq] at here
    rw [here]
    exact ends
  · have moves : Talks initial (.move a b false .ok .ok .ok) := talks _ _ .refl ⟨first, second⟩
    refine moves 0 (.rename a.toPath b.toPath) ?_
    cases host : a.hostName with
    | none => simp [doCheckSameFs, host] at same
    | some hostName =>
      have key : a.key = some (hashName a.userName hostName) := by rw [SftpUri.key, host]; rfl
      simp [doMove, same, get_initial key]

/-- Operations talk to the servers their URIs name exactly where no two of the URIs that build one name, or
that are on the same file system, differ in the user, the host or the port. -/
theorem talks_iff (P : SftpUri → Prop) :
    (∀ s event, Run State.step (allowed P) initial s → allowed P s event → Talks s event) ↔ Separates P := by
  constructor
  · exact separates_of_talks
  · intro separates s event run fits
    exact (Named.of_run run).talks separates fits

/-- One host, by its default port and by another. -/
private def atPort (port : UInt32) : SftpUri := ⟨⟨some (ascii "host"), port, some (ascii "user"), none⟩, some (ascii "/file")⟩

/-- With the connection to port 22 in the table, the one that is got for port 2222 was opened for port 22, and
a forced move between the two removes and renames. -/
theorem talks_by_port :
    Run State.step (allowed fun _ => True) initial (sftpGetConnection (atPort 22) .ok initial).2 ∧
      ¬ Talks (sftpGetConnection (atPort 22) .ok initial).2 (.get (atPort 2222) .ok) ∧
      ¬ Talks initial (.move (atPort 22) (atPort 2222) true .ok .ok .ok) := by
  have key (port : UInt32) : (atPort port).key = some (hashName (some (ascii "user")) (ascii "host")) := rfl
  refine ⟨.next (.get (atPort 22) .ok) .refl trivial rfl, ?_, ?_⟩
  · intro talks
    obtain ⟨t, again, opened⟩ := get_again (key 22) (key 2222)
    obtain ⟨other, here, ends⟩ := talks _ _ _ again
    rw [opened, Option.some.injEq] at here
    rw [← here] at ends
    exact absurd ends (by decide)
  · intro talks
    have same : doCheckSameFs (atPort 22) (atPort 2222) = true := by decide
    have ends := talks 0 (.remove (atPort 2222).toPath) (by simp [doMove, same, get_initial (key 22)])
    exact absurd ends (by decide)

end GnomeVfs.Sftp.Table
