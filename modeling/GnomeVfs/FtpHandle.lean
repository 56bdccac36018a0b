import GnomeVfs.FtpLine

/- A handle of the FTP method from `do_open` to `do_close`: the replies that are owed on its control connection, and the
data connection. -/
namespace GnomeVfs.Ftp.Handle

open Interaction

variable {M α β : Type}

/-- What is done with the connection of a handle. -/
inductive HandleReq where
  | control (r : ControlReq)
  | dataRead (numBytes : Nat)
  | dataWrite (buffer : Bytes)

abbrev HandleReq.Resp : HandleReq → Type
  | .control r => r.Resp
  | .dataRead _ => VfsResult × Bytes
  | .dataWrite _ => VfsResult × Nat

abbrev HandleAction (M : Type) := Action HandleReq.Resp Stop (Connection M)

def lift : Prog ControlReq.Resp Stop α → Prog HandleReq.Resp Stop α
  | .done a => .done a
  | .stop reason => .stop reason
  | .ask r next => .ask (.control r) fun answer => lift (next answer)

def onControl (x : Conversation M α) : HandleAction M α := fun conn => lift (x conn)

def ask (r : HandleReq) : HandleAction M r.Resp := Action.ask r

/-- What `do_open` does with the connection that it has acquired. -/
def openTransfer (uri : Uri M) (mode : OpenMode) : HandleAction M VfsResult := do
  if mode.read then
    modify fun conn => { conn with operation := .read }
    onControl (doPathTransferCommand .transfer (ascii "RETR") uri)
  else
    modify fun conn => { conn with operation := .write, fivefifty := .accessDenied }
    let result ← onControl (doPathTransferCommand .transfer (ascii "STOR") uri)
    modify fun conn => { conn with fivefifty := .notFound }
    return result

/-- `do_read`. -/
def doRead (numBytes : Nat) : HandleAction M (VfsResult × Bytes) := do
  let (result, buffer) ← ask (.dataRead numBytes)
  if buffer = [] then return (.eof, buffer)
  if result = .ok then modify fun conn => { conn with offset := conn.offset + buffer.length }
  return (result, buffer)

/-- `do_write`. -/
def doWrite (buffer : Bytes) : HandleAction M (VfsResult × Nat) := do
  if (← get).operation ≠ .write then return (.notPermitted, 0)
  let (result, bytesWritten) ← ask (.dataWrite buffer)
  if result = .ok then modify fun conn => { conn with offset := conn.offset + bytesWritten }
  return (result, bytesWritten)

/-- The transfer of `do_seek` that is begun again, and the offset from before where that fails. -/
def transferAgain (command : Bytes) (uri : Uri M) (origOffset : Int) : HandleAction M VfsResult := do
  let result ← onControl (doPathTransferCommand .seek command uri)
  if result ≠ .ok then modify fun conn => { conn with offset := origOffset }
  return result

/-- `do_seek`. What comes of ending the transfer is not looked at. -/
def doSeek (whence : SeekPosition) (offset : Int) : HandleAction M VfsResult := do
  if whence = .end then return .notSupported
  let before ← get
  let realOffset := if whence = .start then offset else before.offset + offset
  let _ ← onControl (endTransfer .seek)
  let orig ← get
  modify fun conn => { conn with offset := realOffset }
  match orig.operation with
  | .read => transferAgain (ascii "RETR") orig.uri orig.offset
  | .write => transferAgain (ascii "STOR") orig.uri orig.offset
  | _ => return .generic

/-- `do_close`, behind which there is no handle. -/
def doClose : HandleAction M VfsResult := onControl (endTransfer .close)

inductive Call where
  | read (numBytes : Nat)
  | write (buffer : Bytes)
  | seek (whence : SeekPosition) (offset : Int)
  | close

/-- The calls on a handle, one behind the other. -/
def follow : List Call → HandleAction M Unit
  | [] => return
  | .read numBytes :: rest => do
    let _ ← doRead numBytes
    follow rest
  | .write buffer :: rest => do
    let _ ← doWrite buffer
    follow rest
  | .seek whence offset :: rest => do
    let _ ← doSeek whence offset
    follow rest
  | .close :: _ => do
    let _ ← doClose
    return

/-- `do_open`, and these calls on the handle where there is one. -/
def session (uri : Uri M) (mode : OpenMode) (calls : List Call) : HandleAction M Unit := do
  if mode.read && mode.write then return
  if !mode.read && !mode.write then return
  let result ← openTransfer uri mode
  if result ≠ .ok then return
  follow calls

/-- What the server and the network do about one request. -/
inductive Move where
  | wrote (result : VfsResult) (choice : Choice)
  | replied (response : Response)
  | broken (failure : Socket.Failure)
  | connected (result : VfsResult)
  | gave (result : VfsResult) (bytes : Bytes)
  | took (result : VfsResult) (bytes : Nat)
  | closed

/-- The replies that are to come, whether there is a data connection, and the last command: what it was for, and what it
was, as long as no reply has been waited for. -/
structure Peer where
  channel : Channel
  data : Bool
  phase : Phase
  heard : Option Bytes

def Peer.answer (peer : Peer) (move : Move) : (r : HandleReq) → Option (r.Resp × Peer)
  | .control (.write phase text) =>
    match move with
    | .wrote result choice =>
      if result = .ok then some (result, ⟨peer.channel.hear text choice.begins, peer.data, phase, some text⟩)
      else some (result, ⟨if choice.through then peer.channel.hear text choice.begins else peer.channel, peer.data, phase, none⟩)
    | _ => none
  | .control (.response _) =>
    match move with
    | .replied response =>
      match peer.channel.owed with
      | [] => none
      | reply :: rest =>
        if reply.Fits response.code then
          some (.ok response, { peer with channel := { peer.channel with owed := rest }, heard := none })
        else none
    | .broken failure => some (.error failure, { peer with heard := none })
    | _ => none
  | .control (.dataConnect _ _) =>
    match move with
    | .connected result => some (result, { peer with data := peer.data || result = .ok })
    | _ => none
  | .control .dataRead =>
    match move with
    | .gave result bytes => some ((result, bytes), peer)
    | _ => none
  | .control .dataClose =>
    match move with
    | .closed => some ((), { peer with data := false })
    | _ => none
  | .dataRead _ =>
    match move with
    | .gave result bytes => some ((result, bytes), peer)
    | _ => none
  | .dataWrite _ =>
    match move with
    | .took result bytes => some ((result, bytes), peer)
    | _ => none

/-- A response is waited for when a reply is to come, and the data connection is used when there is one. -/
def Peer.demand (peer : Peer) : HandleReq → Prop
  | .control (.response _) => peer.channel.owed ≠ []
  | .dataRead _ => peer.data = true
  | .dataWrite _ => peer.data = true
  | _ => True

def Accepted (code : Nat) : Prop := ftpResponseToVfsResult code .notFound = .ok

instance : DecidablePred Accepted := fun _ => inferInstanceAs (Decidable (_ = _))

/-- Where `do_seek` begins a transfer again, each command is sent and accepted, the address of the data connection is told,
and the connection is made. And a transfer that is accepted, here or by `do_open`, is begun: its end is told by another reply. -/
def Peer.resumes (peer : Peer) (move : Move) : HandleReq → Prop
  | .control (.write phase _) => phase = .seek → ∃ choice, move = .wrote .ok choice
  | .control (.response _) => ∀ text, peer.heard = some text →
      (peer.phase = .seek → ∃ response, move = .replied response ∧ Accepted response.code ∧
        (text = ascii "PASV" ++ [carriageReturn, lineFeed] → (parsePasv response.message).isSome = true)) ∧
      (isTransfer text = true → ∀ response, move = .replied response → Accepted response.code → response.code < 200)
  | .control (.dataConnect _ _) => peer.phase = .seek → move = .connected .ok
  | _ => True

instance decidableExistsSent : ∀ move : Move, Decidable (∃ choice, move = .wrote .ok choice)
  | .wrote result choice => decidable_of_iff (result = .ok)
      ⟨fun fine => ⟨choice, by rw [fine]⟩, by rintro ⟨_, same⟩; cases same; rfl⟩
  | .replied _ | .broken _ | .connected _ | .gave .. | .took .. | .closed => .isFalse (by rintro ⟨_, same⟩; cases same)

instance decidableExistsReplied {p : Response → Prop} [DecidablePred p] :
    ∀ move : Move, Decidable (∃ response, move = .replied response ∧ p response)
  | .replied response => decidable_of_iff (p response)
      ⟨fun holds => ⟨response, rfl, holds⟩, by rintro ⟨_, same, holds⟩; cases same; exact holds⟩
  | .wrote .. | .broken _ | .connected _ | .gave .. | .took .. | .closed => .isFalse (by rintro ⟨_, same, _⟩; cases same)

instance decidableForallReplied {p : Response → Prop} [DecidablePred p] :
    ∀ move : Move, Decidable (∀ response, move = .replied response → p response)
  | .replied response => decidable_of_iff (p response)
      ⟨fun holds _ same => by cases same; exact holds, fun all => all response rfl⟩
  | .wrote .. | .broken _ | .connected _ | .gave .. | .took .. | .closed => .isTrue (by rintro _ same; cases same)

instance decidableResumes (peer : Peer) (move : Move) : DecidablePred (peer.resumes move)
  | .control (.write ..) => inferInstanceAs (Decidable (_ → ∃ choice, move = .wrote .ok choice))
  | .control (.response _) =>
    match heard : peer.heard with
    | none => .isTrue (by intro text wrong; rw [heard] at wrong; cases wrong)
    | some text => decidable_of_iff
        ((peer.phase = .seek → ∃ response, move = .replied response ∧ Accepted response.code ∧
          (text = ascii "PASV" ++ [carriageReturn, lineFeed] → (parsePasv response.message).isSome = true)) ∧
        (isTransfer text = true → ∀ response, move = .replied response → Accepted response.code → response.code < 200))
        ⟨fun holds _ same => by rw [heard] at same; cases same; exact holds, fun all => all text heard⟩
  | .control (.dataConnect ..) =>
    match move with
    | .connected result => decidable_of_iff (peer.phase = .seek → result = .ok)
        ⟨fun holds seek => by rw [holds seek], fun holds seek => by cases holds seek; rfl⟩
    | .wrote .. | .replied _ | .broken _ | .gave .. | .took .. | .closed =>
      decidable_of_iff (peer.phase ≠ .seek) ⟨fun other seek => absurd seek other, fun holds seek => by cases holds seek⟩
  | .control .dataRead | .control .dataClose | .dataRead _ | .dataWrite _ => .isTrue trivial

/-- The connection as it is acquired, with whatever is still to come on it. -/
def acquired (conn : Connection M) : Connection M := { conn with hasData := false, fivefifty := .notFound }

def Peer.of (channel : Channel) : Peer := ⟨channel, false, .command, none⟩

variable {conn : Connection M}

section Serves

abbrev Env : Peer → (r : HandleReq) → r.Resp → Peer → Prop := chosen Peer.answer Peer.resumes

theorem safe_lift {Q : α → Peer → Prop} {H : Stop → Peer → Prop} (p : Prog ControlReq.Resp Stop α) {peer : Peer} :
    (lift p).safe Env Peer.demand Q H peer ↔
      p.safe (fun peer r => Env peer (.control r)) (fun peer r => Peer.demand peer (.control r)) Q H peer := by
  induction p generalizing peer with
  | done a => rfl
  | stop reason => rfl
  | ask r next ih =>
    simp only [lift, Prog.safe]
    exact and_congr_right fun _ => forall_congr' fun a => forall_congr' fun peer' => imp_congr_right fun _ => ih a

/-- Whatever the outside does to a conversation as long as transfers are resumed. -/
def Serves (P : Connection M → Peer → Prop) (x : Conversation M α) (Q : α → Connection M → Peer → Prop) : Prop :=
  Action.Triple (fun peer r => Env peer (.control r)) (fun peer r => Peer.demand peer (.control r)) (fun _ _ => True) P x Q

/-- The same of what is done with a handle. -/
def Handles (P : Connection M → Peer → Prop) (x : HandleAction M α) (Q : α → Connection M → Peer → Prop) : Prop :=
  Action.Triple Env Peer.demand (fun _ _ => True) P x Q

variable {P : Connection M → Peer → Prop} {Q : α → Connection M → Peer → Prop} {peer peer' : Peer}

theorem Serves.onControl {x : Conversation M α} (serves : Serves P x Q) : Handles P (onControl x) Q :=
  fun conn peer holds => (safe_lift (x conn)).mpr (serves conn peer holds)

theorem linesFrom_length (line text : Bytes) : (linesFrom line text).length = text.count lineFeed := by
  induction text generalizing line with
  | nil => rfl
  | cons c rest ih =>
    rw [linesFrom, List.count_cons]
    by_cases here : c = lineFeed
    · rw [if_pos here, List.length_cons, ih, here, beq_self_eq_true, if_pos rfl]
    · rw [if_neg here, ih, beq_eq_false_iff_ne.mpr here, if_neg Bool.false_ne_true, Nat.add_zero]

theorem repliesTo_ne_nil (begins : Bool) (line : Bytes) : repliesTo begins line ≠ [] := by
  rw [repliesTo]
  split <;> exact List.cons_ne_nil _ _

theorem flatMap_repliesTo_ne_nil (begins : Bool) {lines : List Bytes} (some_line : lines ≠ []) :
    lines.flatMap (repliesTo begins) ≠ [] := by
  cases lines with
  | nil => exact absurd rfl some_line
  | cons line rest =>
    rw [List.flatMap_cons]
    exact List.append_ne_nil_of_left_ne_nil (repliesTo_ne_nil begins line) _

theorem lines_of_command (command : Bytes) : linesFrom [] (command ++ [carriageReturn, lineFeed]) ≠ [] := by
  rw [← List.length_pos_iff_ne_nil, linesFrom_length, List.count_append]
  exact Nat.lt_of_lt_of_le (by decide) (Nat.le_add_left 1 _)

theorem owed_hear (channel : Channel) (command : Bytes) (begins : Bool) :
    (channel.hear (command ++ [carriageReturn, lineFeed]) begins).owed ≠ [] :=
  List.append_ne_nil_of_right_ne_nil _ (flatMap_repliesTo_ne_nil begins (lines_of_command command))

theorem owed_begun {channel : Channel} {command : Bytes} {begins : Bool} {reply : Reply} {rest : List Reply}
    (owed : (channel.hear (command ++ [carriageReturn, lineFeed]) begins).owed = reply :: rest)
    (preliminary : reply.preliminary = true) : rest ≠ [] := by
  have lines := lines_of_command command
  rw [Channel.hear] at owed
  dsimp only at owed
  cases before : channel.owed with
  | cons first later =>
    rw [before, List.cons_append, List.cons.injEq] at owed
    rw [← owed.2]
    exact List.append_ne_nil_of_right_ne_nil _ (flatMap_repliesTo_ne_nil begins lines)
  | nil =>
    rw [before, List.nil_append] at owed
    cases split : linesFrom [] (command ++ [carriageReturn, lineFeed]) with
    | nil => exact absurd split lines
    | cons line more =>
      rw [split, List.flatMap_cons, repliesTo] at owed
      split at owed
      · rw [List.cons_append, List.cons.injEq] at owed
        rw [← owed.2]
        exact List.cons_ne_nil _ _
      · rw [List.cons_append, List.cons.injEq] at owed
        rw [← owed.1] at preliminary
        cases preliminary

theorem write_answered {phase : Phase} {text : Bytes} {result : VfsResult}
    (answered : Env peer (.control (.write phase text)) result peer') :
    peer'.data = peer.data ∧ peer'.phase = phase ∧ (phase = .seek → result = .ok) ∧
      (result = .ok → ∃ begins, peer'.channel = peer.channel.hear text begins ∧ peer'.heard = some text) := by
  obtain ⟨move, resumes, answer⟩ := answered
  cases move with
  | wrote sent choice =>
    rw [Peer.answer] at answer
    split at answer
    · rename_i fine
      cases answer
      exact ⟨rfl, rfl, fun _ => fine, fun _ => ⟨_, rfl, rfl⟩⟩
    · rename_i failed
      cases answer
      refine ⟨rfl, rfl, fun seek => ?_, fun fine => absurd fine failed⟩
      obtain ⟨other, same⟩ := resumes seek
      cases same
      exact absurd rfl failed
  | _ => cases answer

theorem response_answered {phase : Phase} {answer : Except Socket.Failure Response}
    (answered : Env peer (.control (.response phase)) answer peer') :
    peer'.data = peer.data ∧ peer'.phase = peer.phase ∧
      (∀ text, peer.heard = some text → peer.phase = .seek → ∃ response, answer = .ok response ∧ Accepted response.code ∧
        (text = ascii "PASV" ++ [carriageReturn, lineFeed] → (parsePasv response.message).isSome = true)) ∧
      ∀ response, answer = .ok response → ∃ reply rest, peer.channel.owed = reply :: rest ∧ reply.Fits response.code ∧
        peer'.channel.owed = rest ∧
          ∀ text, peer.heard = some text → isTransfer text = true → Accepted response.code → response.code < 200 := by
  obtain ⟨move, resumes, given⟩ := answered
  cases move with
  | replied response =>
    rw [Peer.answer] at given
    dsimp only at given
    cases owed : peer.channel.owed with
    | nil =>
      rw [owed] at given
      cases given
    | cons reply rest =>
      rw [owed] at given
      dsimp only at given
      split at given
      · rename_i fits
        cases given
        refine ⟨rfl, rfl, fun text heard seek => ?_, fun response' same => ?_⟩
        · obtain ⟨response', same, rest⟩ := (resumes text heard).1 seek
          cases same
          exact ⟨response, rfl, rest⟩
        · cases same
          exact ⟨reply, rest, rfl, fits, rfl, fun text heard transfer => (resumes text heard).2 transfer response rfl⟩
      · cases given
  | broken failure =>
    cases given
    refine ⟨rfl, rfl, fun text heard seek => ?_, fun response wrong => by cases wrong⟩
    obtain ⟨response, wrong, -⟩ := (resumes text heard).1 seek
    cases wrong
  | _ => cases given

theorem accepted_iff {fivefifty : VfsResult} (failure : fivefifty ≠ .ok) (code : Nat) :
    ftpResponseToVfsResult code fivefifty = .ok ↔ Accepted code := by
  rw [Accepted, ftpResponseToVfsResult, ftpResponseToVfsResult]
  by_cases here : (code : Int) = 550
  · rw [here]
    simp [failure]
  · rw [if_neg here, if_neg here]

theorem Accepted.range {code : Nat} (accepted : Accepted code) : 100 ≤ code := by
  by_contra early
  rw [Accepted, ftpResponseToVfsResult, if_neg (by omega), if_neg (by omega), if_neg (by omega), if_neg (by omega),
    if_neg (by omega), if_neg (by omega), if_neg (by omega), if_neg (by omega), if_neg (by omega), if_neg (by omega),
    if_neg (by omega)] at accepted
  cases accepted

/-- The handle's connection, with this operation and with or without a data connection. -/
structure Steady (op : Operation) (there : Bool) (conn : Connection M) (peer : Peer) : Prop where
  operation : conn.operation = op
  fivefifty : conn.fivefifty ≠ .ok
  data : peer.data = there
  hasData : conn.hasData = there

variable {op : Operation} {there : Bool} {phase : Phase} {command : Bytes}

/-- What an exchange leaves. -/
structure Exchanged (op : Operation) (there : Bool) (phase : Phase) (result : VfsResult) (conn : Connection M) (peer : Peer) :
    Prop where
  steady : Steady op there conn peer
  inPhase : peer.phase = phase
  fine : phase = .seek → result = .ok

/-- What has been sent of a command, to which a reply is to come. -/
structure Sent (op : Operation) (there : Bool) (phase : Phase) (command : Bytes) (result : VfsResult) (conn : Connection M)
    (peer : Peer) : Prop where
  exchanged : Exchanged op there phase result conn peer
  hears : result = .ok → peer.heard = some (command ++ [carriageReturn, lineFeed]) ∧
    ∃ channel begins, peer.channel = Channel.hear channel (command ++ [carriageReturn, lineFeed]) begins

theorem serves_doControlWrite :
    Serves (M := M) (Steady op there) (doControlWrite phase command) (Sent op there phase command) := by
  intro conn peer steady
  refine ⟨True.intro, fun result peer' answered => ?_⟩
  obtain ⟨data, inPhase, fine, sent⟩ := write_answered answered
  refine ⟨⟨⟨steady.operation, steady.fivefifty, data.trans steady.data, steady.hasData⟩, inPhase, fine⟩, fun ok => ?_⟩
  obtain ⟨begins, hears, heard⟩ := sent ok
  exact ⟨heard, peer.channel, begins, hears⟩

/-- What the reply to a command tells. -/
def Replied (phase : Phase) (command : Bytes) (result : VfsResult) (conn : Connection M) (peer : Peer) : Prop :=
  (phase = .seek → command = ascii "PASV" → (conn.responseMessage.bind parsePasv).isSome = true) ∧
    (result = .ok → isTransfer (command ++ [carriageReturn, lineFeed]) = true → peer.channel.owed ≠ [])

theorem serves_reply : Serves (M := M) (Sent op there phase command .ok) (getResponse phase) fun result conn peer =>
    Exchanged op there phase result conn peer ∧ Replied phase command result conn peer := by
  intro conn peer sent
  obtain ⟨steady, inPhase, -⟩ := sent.exchanged
  obtain ⟨heard, channel, begins, hears⟩ := sent.hears rfl
  rw [getResponse, Action.safe_bind]
  refine ⟨?_, fun answer peer' answered => ?_⟩
  · show peer.channel.owed ≠ []
    rw [hears]
    exact owed_hear channel command begins
  obtain ⟨data, samePhase, seek_fine, replied⟩ := response_answered answered
  have data_kept : peer'.data = there := data.trans steady.data
  have phase_kept : peer'.phase = phase := samePhase.trans inPhase
  cases answer with
  | error failure =>
    have no_seek : phase ≠ .seek := fun seek => by
      obtain ⟨response, wrong, -⟩ := seek_fine _ heard (inPhase.trans seek)
      cases wrong
    exact ⟨⟨⟨steady.operation, steady.fivefifty, data_kept, steady.hasData⟩, phase_kept, fun seek => absurd seek no_seek⟩,
      fun seek => absurd seek no_seek, fun wrong => absurd wrong failure.2⟩
  | ok response =>
    obtain ⟨reply, rest, owed, fits, left, begun⟩ := replied response rfl
    refine ⟨⟨⟨steady.operation, steady.fivefifty, data_kept, steady.hasData⟩, phase_kept, fun seek => ?_⟩,
      fun seek pasv => ?_, fun ok transfer => ?_⟩
    · obtain ⟨response', same, accepted, -⟩ := seek_fine _ heard (inPhase.trans seek)
      cases same
      exact (accepted_iff steady.fivefifty response.code).mpr accepted
    · obtain ⟨response', same, -, parsed⟩ := seek_fine _ heard (inPhase.trans seek)
      cases same
      exact parsed (by rw [pasv])
    · have accepted := (accepted_iff steady.fivefifty response.code).mp ok
      have early := begun _ heard transfer accepted
      have late := accepted.range
      have preliminary : reply.preliminary = true := by
        rw [Reply.Fits] at fits
        split at fits
        · assumption
        · exact absurd ⟨late, early⟩ fits.1
      rw [hears] at owed
      show peer'.channel.owed ≠ []
      rw [left]
      exact owed_begun owed preliminary

theorem serves_doBasicCommand : Serves (M := M) (Steady op there) (doBasicCommand phase command) fun result conn peer =>
    Exchanged op there phase result conn peer ∧ Replied phase command result conn peer := by
  refine serves_doControlWrite.bind fun result => ?_
  apply Action.Triple.ite
  · exact fun failed => Action.triple_pure fun conn peer sent =>
      ⟨sent.exchanged, fun seek => absurd (sent.exchanged.fine seek) failed, fun wrong => absurd wrong failed⟩
  · intro passed
    rw [not_not.mp passed]
    exact serves_reply

theorem serves_check {there' : Bool} {P : Connection M → Peer → Prop} {x next : Conversation M VfsResult}
    {Q : VfsResult → Connection M → Peer → Prop}
    (first : Serves P x fun result conn peer => Exchanged op there' phase result conn peer ∧ Q result conn peer)
    {R : VfsResult → Connection M → Peer → Prop}
    (failed : ∀ result conn peer, result ≠ .ok → Exchanged op there' phase result conn peer → R result conn peer)
    (second : Serves (fun conn peer => Steady op there' conn peer ∧ peer.phase = phase ∧ Q .ok conn peer) next R) :
    Serves P (do
      let result ← x
      if result ≠ .ok then return result
      next) R := by
  refine first.bind fun result => ?_
  apply Action.Triple.ite
  · exact fun wrong => Action.triple_pure fun conn peer both => failed result conn peer wrong both.1
  · intro passed conn peer both
    have fine := not_not.mp passed
    rw [fine] at both
    exact second conn peer ⟨both.1.steady, both.1.inPhase, both.2⟩

/-- What an attempt to begin a transfer leaves: where it succeeds, a data connection and another reply that is to come. -/
def Begun (op : Operation) (phase : Phase) (result : VfsResult) (conn : Connection M) (peer : Peer) : Prop :=
  ∃ there, Exchanged op there phase result conn peer ∧ (result = .ok → there = true ∧ peer.channel.owed ≠ [])

theorem Exchanged.begun {result : VfsResult} {peer : Peer} (failed : result ≠ .ok)
    (exchanged : Exchanged op there phase result conn peer) : Begun op phase result conn peer :=
  ⟨there, exchanged, fun wrong => absurd wrong failed⟩

theorem serves_restart : Serves (M := M) (fun conn peer => Steady op there conn peer ∧ peer.phase = phase) (restart phase)
    fun result conn peer => Exchanged op there phase result conn peer ∧ True := by
  refine (Action.triple_get (Q := fun _ conn peer => Steady op there conn peer ∧ peer.phase = phase) fun _ _ => id).bind fun conn => ?_
  apply Action.Triple.ite
  · exact fun _ => serves_doBasicCommand.mono (fun _ _ => And.left) fun _ _ _ both => ⟨both.1, True.intro⟩
  · exact fun _ => Action.triple_pure fun _ _ both => ⟨⟨both.1, both.2, fun _ => rfl⟩, True.intro⟩

theorem serves_closeUnlessOk {P : Connection M → Peer → Prop} {x : Conversation M VfsResult}
    (serves : Serves P x (Begun op phase)) : Serves P (closeUnlessOk x) (Begun op phase) := by
  refine serves.bind fun result => ?_
  apply Action.Triple.ite
  · intro failed
    refine Action.Triple.bind (R := fun _ => Begun op phase result) ?_ fun _ => Action.triple_pure fun _ _ => id
    intro conn peer begun
    obtain ⟨there, exchanged, -⟩ := begun
    refine ⟨True.intro, fun answer peer' answered => ?_⟩
    obtain ⟨move, -, given⟩ := answered
    cases move with
    | closed =>
      cases given
      exact ⟨false, ⟨⟨exchanged.steady.operation, exchanged.steady.fivefifty, rfl, rfl⟩, exchanged.inPhase, exchanged.fine⟩,
        fun wrong => absurd wrong failed⟩
    | _ => cases given
  · exact fun _ => Action.triple_pure fun _ _ => id

theorem serves_dataConnect (address : Bytes × Int) :
    Serves (M := M) (fun conn peer => Steady op there conn peer ∧ peer.phase = phase)
      (Ftp.ask (.dataConnect address.1 address.2)) fun result conn peer =>
        (result ≠ .ok → Exchanged op there phase result conn peer) ∧
          (result = .ok → Steady op true { conn with hasData := true } peer ∧ peer.phase = phase) := by
  intro conn peer both
  obtain ⟨steady, inPhase⟩ := both
  refine ⟨True.intro, fun result peer' answered => ?_⟩
  obtain ⟨move, resumes, given⟩ := answered
  cases move with
  | connected made =>
    cases given
    refine ⟨fun failed => ⟨⟨steady.operation, steady.fivefifty, ?_, steady.hasData⟩, inPhase, fun seek => ?_⟩,
      fun fine => ⟨⟨steady.operation, steady.fivefifty, ?_, rfl⟩, inPhase⟩⟩
    · show (peer.data || decide (result = .ok)) = there
      rw [decide_eq_false failed, Bool.or_false]
      exact steady.data
    · cases resumes (inPhase.trans seek)
      rfl
    · show (peer.data || decide (result = .ok)) = true
      rw [decide_eq_true fine, Bool.or_true]
  | _ => cases given

theorem serves_transferTo (transfer : isTransfer (command ++ [carriageReturn, lineFeed]) = true) (address : Bytes × Int) :
    Serves (M := M) (fun conn peer => Steady op there conn peer ∧ peer.phase = phase) (transferTo phase command address)
      (Begun op phase) := by
  refine (serves_dataConnect address).bind fun result => ?_
  apply Action.Triple.ite
  · exact fun failed => Action.triple_pure fun conn peer both => (both.1 failed).begun failed
  intro passed
  refine Action.Triple.bind (R := fun _ conn peer => Steady op true conn peer ∧ peer.phase = phase)
    (Action.triple_modify fun conn peer both => both.2 (not_not.mp passed)) fun _ => serves_closeUnlessOk ?_
  refine serves_check serves_restart (fun result conn peer failed exchanged => exchanged.begun failed) ?_
  exact serves_doBasicCommand.mono (fun _ _ holds => holds.1) fun result conn peer both =>
    ⟨true, both.1, fun fine => ⟨rfl, both.2.2 fine transfer⟩⟩

theorem serves_doTransferCommand (transfer : isTransfer (command ++ [carriageReturn, lineFeed]) = true) :
    Serves (M := M) (Steady op there) (doTransferCommand phase command) (Begun op phase) := by
  refine serves_check serves_doBasicCommand (fun result conn peer failed exchanged => exchanged.begun failed) ?_
  refine serves_check (serves_doBasicCommand.mono (fun _ _ => And.left) fun _ _ _ => id)
    (fun result conn peer failed exchanged => exchanged.begun failed) ?_
  refine (Action.triple_get (Q := fun seen conn peer => seen = conn ∧ Steady op there conn peer ∧ peer.phase = phase ∧
    Replied phase (ascii "PASV") .ok conn peer) fun _ _ holds => ⟨rfl, holds⟩).bind fun seen => ?_
  cases parsed : seen.responseMessage.bind parsePasv with
  | none =>
    refine Action.triple_pure fun conn peer holds => ?_
    obtain ⟨rfl, steady, inPhase, replied⟩ := holds
    refine Exchanged.begun (by decide) ⟨steady, inPhase, fun seek => ?_⟩
    have told := replied.1 seek rfl
    rw [parsed] at told
    cases told
  | some address => exact (serves_transferTo transfer address).mono (fun _ _ holds => ⟨holds.2.1, holds.2.2.1⟩) fun _ _ _ => id

theorem serves_doPathTransferCommand
    (transfer : ∀ name, isTransfer (command ++ 32 :: name ++ [carriageReturn, lineFeed]) = true) (uri : Uri M) :
    Serves (Steady op there) (doPathTransferCommand phase command uri) (Begun op phase) :=
  serves_check serves_doBasicCommand (fun _ _ _ failed exchanged => exchanged.begun failed)
    ((serves_doTransferCommand (transfer _)).mono (fun _ _ => And.left) fun _ _ _ => id)

/-- A transfer is going on. -/
structure Going (conn : Connection M) (peer : Peer) : Prop where
  operation : conn.operation = .read ∨ conn.operation = .write
  fivefifty : conn.fivefifty ≠ .ok
  data : peer.data = true
  hasData : conn.hasData = true
  owed : peer.channel.owed ≠ []

theorem Begun.going {peer : Peer} (reads : op = .read ∨ op = .write) (begun : Begun op phase .ok conn peer) :
    Going conn peer := by
  obtain ⟨there, exchanged, follows⟩ := begun
  obtain ⟨rfl, owed⟩ := follows rfl
  obtain ⟨operation, fivefifty, data, hasData⟩ := exchanged.steady
  exact ⟨by rw [operation]; exact reads, fivefifty, data, hasData, owed⟩

theorem serves_closeData : Serves (M := M) (fun conn peer => Going conn peer ∧ conn.operation = op) closeData
    fun _ conn peer => Steady op false conn peer ∧ peer.channel.owed ≠ [] := by
  intro conn peer holds
  obtain ⟨going, operation⟩ := holds
  refine ⟨True.intro, fun answer peer' answered => ?_⟩
  obtain ⟨move, -, given⟩ := answered
  cases move with
  | closed =>
    cases given
    exact ⟨⟨operation, going.fivefifty, rfl, rfl⟩, going.owed⟩
  | _ => cases given

theorem serves_lastReply : Serves (M := M) (fun conn peer => Steady op false conn peer ∧ peer.channel.owed ≠ [])
    (getResponse phase) fun _ => Steady op false := by
  intro conn peer holds
  obtain ⟨steady, owed⟩ := holds
  rw [getResponse, Action.safe_bind]
  refine ⟨owed, fun answer peer' answered => ?_⟩
  have data := (response_answered answered).1.trans steady.data
  cases answer with
  | error failure => exact ⟨steady.operation, steady.fivefifty, data, steady.hasData⟩
  | ok response => exact ⟨steady.operation, steady.fivefifty, data, steady.hasData⟩

theorem serves_endTransfer : Serves (M := M) (fun conn peer => Going conn peer ∧ conn.operation = op) (endTransfer phase)
    fun _ => Steady op false := by
  refine (Action.triple_get (Q := fun seen conn peer => seen = conn ∧ Going conn peer ∧ conn.operation = op)
    fun _ _ holds => ⟨rfl, holds⟩).bind fun seen => ?_
  apply Action.Triple.ite
  · exact fun _ => (Action.Triple.mono serves_closeData (fun _ _ => And.right) fun _ _ _ => id).bind fun _ => serves_lastReply
  · intro absent conn peer holds
    obtain ⟨rfl, going, -⟩ := holds
    exact absurd going.hasData absent

theorem isTransfer_retr (name : Bytes) : isTransfer (ascii "RETR" ++ 32 :: name ++ [carriageReturn, lineFeed]) = true := rfl

theorem isTransfer_stor (name : Bytes) : isTransfer (ascii "STOR" ++ 32 :: name ++ [carriageReturn, lineFeed]) = true := rfl

theorem handles_openTransfer (uri : Uri M) (mode : OpenMode) :
    Handles (fun conn peer => conn.fivefifty ≠ .ok ∧ conn.hasData = false ∧ peer.data = false) (openTransfer uri mode)
      fun result conn peer => result = .ok → Going conn peer := by
  apply Action.Triple.ite
  · intro _
    refine Action.Triple.bind (R := fun _ => Steady .read false)
      (Action.triple_modify fun conn peer holds => ⟨rfl, holds.1, holds.2.2, holds.2.1⟩) fun _ => ?_
    refine (serves_doPathTransferCommand isTransfer_retr uri).onControl.mono (fun _ _ => id) fun result conn peer begun fine => ?_
    rw [fine] at begun
    exact begun.going (Or.inl rfl)
  · intro _
    refine Action.Triple.bind (R := fun _ => Steady .write false)
      (Action.triple_modify fun conn peer holds => ⟨rfl, (fun wrong => by cases wrong), holds.2.2, holds.2.1⟩) fun _ => ?_
    refine (serves_doPathTransferCommand isTransfer_stor uri).onControl.bind fun result => ?_
    refine Action.Triple.bind (R := fun _ conn peer => result = .ok → Going conn peer)
      (Action.triple_modify fun conn peer begun fine => ?_) fun _ => Action.triple_pure fun _ _ => id
    rw [fine] at begun
    obtain ⟨operation, -, data, hasData, owed⟩ := begun.going (Or.inr rfl)
    exact ⟨operation, (fun wrong => by cases wrong), data, hasData, owed⟩

theorem Steady.offset {peer : Peer} (steady : Steady op there conn peer) (offset : Int) :
    Steady op there { conn with offset := offset } peer := ⟨steady.operation, steady.fivefifty, steady.data, steady.hasData⟩

theorem Going.offset {peer : Peer} (going : Going conn peer) (offset : Int) :
    Going { conn with offset := offset } peer := ⟨going.operation, going.fivefifty, going.data, going.hasData, going.owed⟩

theorem handles_dataRead (numBytes : Nat) : Handles (M := M) Going (ask (.dataRead numBytes)) fun _ => Going := by
  intro conn peer going
  refine ⟨going.data, fun answer peer' answered => ?_⟩
  obtain ⟨move, -, given⟩ := answered
  cases move with
  | gave result bytes =>
    cases given
    exact going
  | _ => cases given

theorem handles_dataWrite (buffer : Bytes) : Handles (M := M) Going (ask (.dataWrite buffer)) fun _ => Going := by
  intro conn peer going
  refine ⟨going.data, fun answer peer' answered => ?_⟩
  obtain ⟨move, -, given⟩ := answered
  cases move with
  | took result bytes =>
    cases given
    exact going
  | _ => cases given

theorem handles_doRead (numBytes : Nat) : Handles (M := M) Going (doRead numBytes) fun _ => Going := by
  refine (handles_dataRead numBytes).bind fun answer => ?_
  obtain ⟨result, buffer⟩ := answer
  apply Action.Triple.ite
  · exact fun _ => Action.triple_pure fun _ _ => id
  · intro _
    apply Action.Triple.ite
    · exact fun _ => Action.Triple.bind (R := fun _ => Going) (Action.triple_modify fun conn peer going => going.offset _)
        fun _ => Action.triple_pure fun _ _ => id
    · exact fun _ => Action.triple_pure fun _ _ => id

theorem handles_doWrite (buffer : Bytes) : Handles (M := M) Going (doWrite buffer) fun _ => Going := by
  refine (Action.triple_get (Q := fun _ => Going) fun _ _ => id).bind fun conn => ?_
  apply Action.Triple.ite
  · exact fun _ => Action.triple_pure fun _ _ => id
  · intro _
    refine (handles_dataWrite buffer).bind fun answer => ?_
    obtain ⟨result, bytesWritten⟩ := answer
    apply Action.Triple.ite
    · exact fun _ => Action.Triple.bind (R := fun _ => Going) (Action.triple_modify fun conn peer going => going.offset _)
        fun _ => Action.triple_pure fun _ _ => id
    · exact fun _ => Action.triple_pure fun _ _ => id

theorem handles_transferAgain (reads : op = .read ∨ op = .write)
    (transfer : ∀ name, isTransfer (command ++ 32 :: name ++ [carriageReturn, lineFeed]) = true) (uri : Uri M)
    (origOffset : Int) :
    Handles (Steady op false) (transferAgain command uri origOffset) fun _ => Going := by
  refine (serves_doPathTransferCommand transfer uri).onControl.bind fun result => ?_
  have going : ∀ (conn : Connection M) (peer : Peer), Begun op .seek result conn peer → Going conn peer := by
    intro conn peer begun
    have fine : result = .ok := by
      obtain ⟨_, exchanged, -⟩ := begun
      exact exchanged.fine rfl
    rw [fine] at begun
    exact begun.going reads
  apply Action.Triple.ite
  · exact fun _ => Action.Triple.bind (R := fun _ => Going)
      (Action.triple_modify fun conn peer begun => (going conn peer begun).offset _) fun _ => Action.triple_pure fun _ _ => id
  · exact fun _ => Action.triple_pure going

theorem handles_doSeek (whence : SeekPosition) (offset : Int) : Handles (M := M) Going (doSeek whence offset) fun _ => Going := by
  apply Action.Triple.ite
  · exact fun _ => Action.triple_pure fun _ _ => id
  intro _
  refine Action.Triple.bind (R := fun before conn peer => Going conn peer ∧ conn.operation = before.operation)
    (Action.triple_get fun _ _ going => ⟨going, rfl⟩) fun before => ?_
  by_cases reads : before.operation = .read ∨ before.operation = .write
  swap
  · intro conn peer holds
    rw [← holds.2] at reads
    exact absurd holds.1.operation reads
  refine serves_endTransfer.onControl.bind fun _ => ?_
  refine Action.Triple.bind (R := fun orig conn peer => orig.operation = before.operation ∧ Steady before.operation false conn peer)
    (Action.triple_get fun _ _ steady => ⟨steady.operation, steady⟩) fun orig => ?_
  refine Action.Triple.bind (R := fun _ conn peer => orig.operation = before.operation ∧ Steady before.operation false conn peer)
    (Action.triple_modify fun _ _ both => ⟨both.1, both.2.offset _⟩) fun _ => ?_
  intro conn peer both
  obtain ⟨same, steady⟩ := both
  rw [same]
  obtain read | write := reads
  · rw [read] at steady ⊢
    exact handles_transferAgain (Or.inl rfl) isTransfer_retr _ _ conn peer steady
  · rw [write] at steady ⊢
    exact handles_transferAgain (Or.inr rfl) isTransfer_stor _ _ conn peer steady

/-- Behind any of the calls but the last the transfer goes on. -/
theorem handles_follow (calls : List Call) : Handles (M := M) Going (follow calls) fun _ _ _ => True := by
  induction calls with
  | nil => exact Action.triple_pure fun _ _ _ => True.intro
  | cons call rest ih =>
    cases call with
    | read numBytes => exact (handles_doRead numBytes).bind fun _ => ih
    | write buffer => exact (handles_doWrite buffer).bind fun _ => ih
    | seek whence offset => exact (handles_doSeek whence offset).bind fun _ => ih
    | close =>
      intro conn peer going
      refine Action.Triple.bind (R := fun _ _ _ => True) ?_ (fun _ => Action.triple_pure fun _ _ => id) conn peer going
      intro conn peer going
      exact Action.safe_mono (serves_endTransfer.onControl conn peer ⟨going, rfl⟩) (fun _ _ _ _ => True.intro) fun _ _ => id

theorem handles_session (uri : Uri M) (mode : OpenMode) (calls : List Call) :
    Handles (fun conn peer => conn.fivefifty ≠ .ok ∧ conn.hasData = false ∧ peer.data = false) (session uri mode calls)
      fun _ _ _ => True := by
  apply Action.Triple.ite
  · exact fun _ => Action.triple_pure fun _ _ _ => True.intro
  intro _
  apply Action.Triple.ite
  · exact fun _ => Action.triple_pure fun _ _ _ => True.intro
  intro _
  refine (handles_openTransfer uri mode).bind fun result => ?_
  apply Action.Triple.ite
  · exact fun _ => Action.triple_pure fun _ _ _ => True.intro
  · exact fun passed conn peer going => handles_follow calls conn peer (going (not_not.mp passed))

/-- On a handle that `do_open` gives, in every run in which each seek begins its transfer again and each transfer that is
accepted is begun: a response is waited for only when a reply is to come, and what is read from or written to is there. -/
theorem waits_for_owed_replies (uri : Uri M) (mode : OpenMode) (calls : List Call) (conn : Connection M) (channel : Channel) :
    ∀ config, Transition.Run (serve Peer.answer) (permits Peer.resumes)
      (session uri mode calls (acquired conn), Peer.of channel) config →
        ∀ r next, config.1 = .ask r next → Peer.demand config.2 r := by
  intro config run r next asks
  have safe := handles_session uri mode calls (acquired conn) (Peer.of channel) ⟨(fun wrong => by cases wrong), rfl, rfl⟩
  have there := Prog.safe.run (session uri mode calls (acquired conn), Peer.of channel) config safe run
  rw [asks] at there
  exact there.1

def fileUri : Uri Unit := .toplevel ⟨some (ascii "/f"), none, ascii "ftp", some ()⟩ ⟨some (ascii "h"), 0, none, none⟩

/-- The commands of a transfer from the start of the file, which is begun. -/
def begunTransfer : List Move :=
  [.wrote .ok ⟨true, true⟩, .replied ⟨250, []⟩, .wrote .ok ⟨true, true⟩, .replied ⟨200, []⟩, .wrote .ok ⟨true, true⟩,
    .replied ⟨227, ascii "(1,2,3,4,5,6)"⟩, .connected .ok, .wrote .ok ⟨true, true⟩, .replied ⟨150, []⟩]

/-- The transfer is begun by `do_open` and again by a seek, and then the handle is closed. -/
def resumedSeek : List Move := begunTransfer ++ [.closed, .replied ⟨426, []⟩] ++ begunTransfer ++ [.closed]

/-- That the last response of a handle is waited for. -/
def awaitsLast (config : Prog HandleReq.Resp Stop α × Peer) : Bool :=
  match config.1 with
  | .ask (.control (.response phase)) _ => phase = .close
  | _ => false

theorem exists_of_awaitsLast {config : Prog HandleReq.Resp Stop α × Peer} (here : awaitsLast config = true) :
    ∃ next, config.1 = .ask (.control (.response .close)) next := by
  obtain ⟨program, peer⟩ := config
  cases program with
  | ask r next =>
    cases r with
    | control r =>
      cases r with
      | response phase =>
        cases of_decide_eq_true here
        exact ⟨next, rfl⟩
      | _ => cases here
    | _ => cases here
  | _ => cases here

theorem resumed_seek_owed : ∃ config next, Transition.Run (serve Peer.answer) (permits Peer.resumes)
    (session fileUri ⟨true, false⟩ [.seek .start 0, .close] (acquired (.new fileUri)), Peer.of ⟨[], none⟩) config ∧
      config.1 = .ask (.control (.response .close)) next ∧ Peer.demand config.2 (.control (.response .close)) := by
  have reached : (resumedSeek.foldlM (Transition.guarded (serve Peer.answer) (permits Peer.resumes))
      (session fileUri ⟨true, false⟩ [.seek .start 0, .close] (acquired (.new fileUri)), Peer.of ⟨[], none⟩)).map awaitsLast =
        some true := by
    decide +kernel
  obtain ⟨config, followed, here⟩ := Option.map_eq_some_iff.mp reached
  obtain ⟨next, asks⟩ := exists_of_awaitsLast here
  have run := Transition.Run.of_foldlM _ followed
  exact ⟨config, next, run, asks, waits_for_owed_replies fileUri _ _ _ _ config run _ next asks⟩

/-- That something is asked for whose demand is not met. -/
def unmet (config : Prog HandleReq.Resp Stop α × Peer) : Bool :=
  match config.1 with
  | .ask (.control (.response _)) _ => config.2.channel.owed = []
  | .ask (.dataRead _) _ => !config.2.data
  | .ask (.dataWrite _) _ => !config.2.data
  | _ => false

theorem exists_of_unmet {config : Prog HandleReq.Resp Stop α × Peer} (here : unmet config = true) :
    ∃ r next, config.1 = .ask r next ∧ ¬ Peer.demand config.2 r := by
  obtain ⟨program, peer⟩ := config
  cases program with
  | ask r next =>
    refine ⟨r, next, rfl, ?_⟩
    cases r with
    | control r =>
      cases r with
      | response phase => exact not_not_intro (of_decide_eq_true here)
      | _ => cases here
    | dataRead numBytes => exact fun there => by simp [unmet, show peer.data = true from there] at here
    | dataWrite buffer => exact fun there => by simp [unmet, show peer.data = true from there] at here
  | _ => cases here

/-- The transfer is begun by `do_open`; then the first seek is told at its end that there is no such directory. -/
def refusedSeek : List Move := begunTransfer ++ [.closed, .replied ⟨426, []⟩, .wrote .ok ⟨true, true⟩, .replied ⟨550, []⟩]

theorem unmet_run {call : Call} (reached : (refusedSeek.foldlM (Transition.guarded (serve Peer.answer) (permits fun _ _ _ => True))
    (session fileUri ⟨true, false⟩ [.seek .start 0, call] (acquired (.new fileUri)), Peer.of ⟨[], none⟩)).map unmet = some true):
    ∃ config, Transition.Run (serve Peer.answer) (permits fun _ _ _ => True)
      (session fileUri ⟨true, false⟩ [.seek .start 0, call] (acquired (.new fileUri)), Peer.of ⟨[], none⟩) config ∧
        ∃ r next, config.1 = .ask r next ∧ ¬ Peer.demand config.2 r := by
  obtain ⟨config, followed, here⟩ := Option.map_eq_some_iff.mp reached
  exact ⟨config, Transition.Run.of_foldlM _ followed, exists_of_unmet here⟩

/-- Behind a seek that is refused `do_close` waits for a reply that nobody owes, and `do_read` reads from what is not there. -/
theorem refused_seek_waits :
    (∃ config, Transition.Run (serve Peer.answer) (permits fun _ _ _ => True)
      (session fileUri ⟨true, false⟩ [.seek .start 0, .close] (acquired (.new fileUri)), Peer.of ⟨[], none⟩) config ∧
        ∃ r next, config.1 = .ask r next ∧ ¬ Peer.demand config.2 r) ∧
    ∃ config, Transition.Run (serve Peer.answer) (permits fun _ _ _ => True)
      (session fileUri ⟨true, false⟩ [.seek .start 0, .read 1] (acquired (.new fileUri)), Peer.of ⟨[], none⟩) config ∧
        ∃ r next, config.1 = .ask r next ∧ ¬ Peer.demand config.2 r :=
  ⟨unmet_run (by decide +kernel), unmet_run (by decide +kernel)⟩

end Serves

end GnomeVfs.Ftp.Handle
