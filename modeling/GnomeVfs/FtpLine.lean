import GnomeVfs.FtpMethod

/- A server that sends exactly the replies its commands call for, and what is still to come from it
behind each exchange. -/
namespace GnomeVfs.Ftp

open Interaction

variable {M α β : Type}

/-- A reply that is to come: the line it answers, where it is not the greeting, and whether another
one comes behind it. -/
structure Reply where
  line : Option Bytes
  preliminary : Bool
  deriving DecidableEq

/-- The codes of such a reply. -/
def Reply.Fits (reply : Reply) (code : Nat) : Prop :=
  if reply.preliminary then 100 ≤ code ∧ code < 200
  else ¬ (100 ≤ code ∧ code < 200) ∧ (reply.line = none → ¬ (300 ≤ code ∧ code < 400))

instance (reply : Reply) (code : Nat) : Decidable (reply.Fits code) := by
  unfold Reply.Fits
  infer_instance

/-- The replies that are to come, and the last command that the server has. -/
structure Channel where
  owed : List Reply
  last : Option Bytes
  deriving DecidableEq

/-- The connection has just been made. -/
def Channel.greeting : Channel := ⟨[⟨none, false⟩], none⟩

/-- A command that a data transfer comes with. -/
def isTransfer (line : Bytes) : Bool := [ascii "RETR", ascii "STOR", ascii "LIST"].contains (line.take 4)

/-- The lines of a text that is sent, the first of which has begun. -/
def linesFrom (line : Bytes) : Bytes → List Bytes
  | [] => []
  | c :: rest => if c = lineFeed then line :: linesFrom [] rest else linesFrom (line ++ [c]) rest

/-- The replies that a line calls for; a transfer is begun or refused. -/
def repliesTo (begins : Bool) (line : Bytes) : List Reply :=
  if isTransfer line && begins then [⟨some line, true⟩, ⟨some line, false⟩] else [⟨some line, false⟩]

/-- The server gets a text, each line of which is a command. -/
def Channel.hear (channel : Channel) (text : Bytes) (begins : Bool) : Channel :=
  ⟨channel.owed ++ (linesFrom [] text).flatMap (repliesTo begins), (linesFrom [] text).getLast? <|> channel.last⟩

/-- The exchanges behind which the method goes on with the connection, or gives it back, even though
they have failed in this way. -/
def goesOn (phase : Phase) (result : VfsResult) : Bool :=
  phase ∈ [.setup, .hidden, .candidate, .listing, .seek] ||
    (phase = .greeting && result = .loginFailed) || (phase = .create && result = .notFound)

/-- The control connection. `interrupted` is whether an exchange has been left, with a reply to
come, behind which the method goes on, or more than one line has been sent for a command. -/
structure Line where
  channel : Channel
  interrupted : Bool
  deriving DecidableEq

/-- What the server and the network are free to do: whether a line that could not be written has got
through, and whether a transfer is begun. -/
structure Choice where
  through : Bool
  begins : Bool
  deriving DecidableEq

def Line.answer (v : Line) (choice : Choice) : (r : ControlReq) → r.Resp → Option Line
  | .write phase text, result =>
    if result = .ok then some ⟨v.channel.hear text choice.begins, v.interrupted || 1 < text.count lineFeed⟩
    else if choice.through then
      some ⟨v.channel.hear text choice.begins, v.interrupted || goesOn phase result⟩
    else some v
  | .response _, .ok response =>
    match v.channel.owed with
    | [] => none
    | reply :: rest =>
      if reply.Fits response.code then some { v with channel := { v.channel with owed := rest } } else none
  | .response phase, .error failure =>
    some { v with interrupted := v.interrupted || (v.channel.owed ≠ [] && goesOn phase failure.1) }
  | _, _ => some v

/-- Meanwhile others may have been interrupted. -/
def Line.env (v : Line) (r : ControlReq) (answer : r.Resp) (v' : Line) : Prop :=
  ∃ meanwhile choice, Line.answer { v with interrupted := v.interrupted || meanwhile } choice r answer = some v'

/-- The reply that is read is one to the last command. -/
def Channel.Fresh (channel : Channel) : Prop :=
  ∀ reply rest, channel.owed = reply :: rest → reply.line = channel.last

def Line.demand (v : Line) : ControlReq → Prop
  | .response _ => v.interrupted = false → v.channel.Fresh
  | _ => True

variable {conn : Connection M} {ch : Channel}

section Talks

/-- Unless an exchange has been interrupted: what holds before a conversation, and what behind it. -/
def Talks (P : Connection M → Channel → Prop) (x : Conversation M α) (Q : α → Connection M → Channel → Prop) : Prop :=
  ∀ conn v, (v.interrupted = false → P conn v.channel) →
    Action.safe Line.env Line.demand x conn (fun a conn v => v.interrupted = false → Q a conn v.channel)
      (fun reason _ => reason = .outOfFuel) v

variable {P P' : Connection M → Channel → Prop} {Q Q' : α → Connection M → Channel → Prop}

theorem Talks.mono {x : Conversation M α} (talks : Talks P x Q) (before : ∀ conn ch, P' conn ch → P conn ch)
    (behind : ∀ a conn ch, Q a conn ch → Q' a conn ch) : Talks P' x Q' := by
  intro conn v holds
  refine Action.safe_mono (talks conn v fun fine => before _ _ (holds fine)) ?_ fun _ _ => id
  exact fun a conn v holds fine => behind _ _ _ (holds fine)

theorem Talks.bind {R : β → Connection M → Channel → Prop} {x : Conversation M β} {f : β → Conversation M α}
    (first : Talks P x R) (second : ∀ b, Talks (R b) (f b) Q) : Talks P (x >>= f) Q := by
  intro conn v holds
  rw [Action.safe_bind]
  exact Action.safe_mono (first conn v holds) (fun b conn v holds => second b conn v holds) fun _ _ => id

theorem talks_pure {a : α} (holds : ∀ conn ch, P conn ch → Q a conn ch) : Talks P (pure a) Q :=
  fun conn v before fine => holds conn v.channel (before fine)

theorem talks_get {Q : Connection M → Connection M → Channel → Prop} (holds : ∀ conn ch, P conn ch → Q conn conn ch) :
    Talks P get Q := fun conn v before fine => holds conn v.channel (before fine)

theorem talks_modify {f : Connection M → Connection M} {Q : PUnit → Connection M → Channel → Prop}
    (holds : ∀ conn ch, P conn ch → Q ⟨⟩ (f conn) ch) : Talks P (modify f) Q :=
  fun conn v before fine => holds conn v.channel (before fine)

theorem Talks.ite {c : Prop} [Decidable c] {x y : Conversation M α} (yes : c → Talks P x Q) (no : ¬ c → Talks P y Q) :
    Talks P (if c then x else y) Q := by
  by_cases here : c
  · rw [if_pos here]
    exact yes here
  · rw [if_neg here]
    exact no here

theorem talks_data {r : ControlReq} (data : ∀ v choice answer, Line.answer v choice r answer = some v)
    (quiet : ∀ v, Line.demand v r) {P : Connection M → Channel → Prop} : Talks P (ask r) fun _ => P := by
  intro conn v before
  refine ⟨quiet v, ?_⟩
  rintro answer v' ⟨meanwhile, choice, answered⟩
  rw [data] at answered
  cases answered
  exact fun uninterrupted => before (Bool.or_eq_false_iff.mp uninterrupted).1

/-- Nothing is to come. -/
def InStep (_ : Connection M) (channel : Channel) : Prop := channel.owed = []

/-- Nothing is to come, or the reply at the end of a transfer. -/
def Transferring (_ : Connection M) (channel : Channel) : Prop :=
  channel.owed = [] ∨ ∃ line, channel.owed = [⟨some line, false⟩] ∧ channel.last = some line

/-- The exchange has succeeded, or the method goes on as if it had. -/
def Ended (phase : Phase) (result : VfsResult) (conn : Connection M) (channel : Channel) : Prop :=
  result = .ok ∨ goesOn phase result = true → InStep conn channel

/-- A transfer has been begun, or the exchange has ended. -/
def Begun (phase : Phase) (result : VfsResult) (conn : Connection M) (channel : Channel) : Prop :=
  (result = .ok → Transferring conn channel) ∧ (result ≠ .ok → Ended phase result conn channel)

variable {phase : Phase} {command : Bytes}

theorem Ended.begun {result : VfsResult} (ended : Ended phase result conn ch) :
    Begun phase result conn ch := ⟨fun fine => Or.inl (ended (Or.inl fine)), fun _ => ended⟩

theorem talks_doControlWrite {P : Connection M → Channel → Prop} {Q : VfsResult → Connection M → Channel → Prop}
    (sent : ∀ conn ch begins, lineFeed ∉ command → P conn ch →
      Q .ok conn (ch.hear (command ++ [carriageReturn, lineFeed]) begins))
    (failed : ∀ conn ch result, result ≠ .ok → P conn ch → Q result conn ch)
    (through : ∀ conn ch result begins, result ≠ .ok → goesOn phase result = false → P conn ch →
      Q result conn (ch.hear (command ++ [carriageReturn, lineFeed]) begins)):
    Talks P (doControlWrite phase command) Q := by
  intro conn v before
  refine ⟨trivial, ?_⟩
  rintro result v' ⟨meanwhile, choice, answered⟩
  have before : (v.interrupted || meanwhile) = false → P conn v.channel := fun uninterrupted =>
    before (Bool.or_eq_false_iff.mp uninterrupted).1
  rw [Line.answer] at answered
  split at answered
  · rename_i fine
    cases answered
    rw [fine]
    intro uninterrupted
    rw [Bool.or_eq_false_iff, decide_eq_false_iff_not, List.count_append] at uninterrupted
    have last : [carriageReturn, lineFeed].count lineFeed = 1 := by decide
    refine sent _ _ _ (List.count_eq_zero.mp ?_) (before uninterrupted.1)
    omega
  · rename_i failing
    split at answered
    · cases answered
      intro uninterrupted
      rw [Bool.or_eq_false_iff] at uninterrupted
      exact through _ _ _ _ failing uninterrupted.2 (before uninterrupted.1)
    · cases answered
      exact fun uninterrupted => failed _ _ _ failing (before uninterrupted)

theorem talks_getResponse {P : Connection M → Channel → Prop} {Q : VfsResult → Connection M → Channel → Prop}
    (fresh : ∀ conn ch, P conn ch → ch.Fresh)
    (failed : ∀ conn ch (failure : Socket.Failure), P conn ch → ch.owed = [] ∨ goesOn phase failure.1 = false →
      Q failure.1 conn ch)
    (heard : ∀ conn ch reply rest (response : Response), P conn ch → ch.owed = reply :: rest → reply.Fits response.code →
      Q (ftpResponseToVfsResult response.code conn.fivefifty)
    { conn with responseCode := response.code, responseMessage := some response.message }
    { ch with owed := rest }):
    Talks P (getResponse phase) Q := by
  intro conn v before
  rw [getResponse, Action.safe_bind]
  refine ⟨fun fine => fresh conn v.channel (before fine), ?_⟩
  rintro answer v' ⟨meanwhile, choice, answered⟩
  have before : (v.interrupted || meanwhile) = false → P conn v.channel := fun uninterrupted =>
    before (Bool.or_eq_false_iff.mp uninterrupted).1
  cases answer with
  | error failure =>
    cases answered
    intro uninterrupted
    rw [Bool.or_eq_false_iff, Bool.and_eq_false_iff] at uninterrupted
    refine failed _ _ _ (before uninterrupted.1) (uninterrupted.2.imp_left ?_)
    intro none
    simpa using none
  | ok response =>
    rw [Line.answer] at answered
    cases owed : v.channel.owed with
    | nil =>
      rw [owed] at answered
      cases answered
    | cons reply rest =>
      rw [owed] at answered
      dsimp only at answered
      split at answered
      · rename_i fits
        cases answered
        exact fun uninterrupted => heard conn v.channel reply rest response (before uninterrupted) owed fits
      · cases answered

/-- What is to come when a command has been sent and nothing else. -/
def Called (line : Bytes) (channel : Channel) : Prop :=
  channel.last = some line ∧ (channel.owed = [⟨some line, false⟩] ∨
    isTransfer line = true ∧ channel.owed = [⟨some line, true⟩, ⟨some line, false⟩])

theorem linesFrom_append {front : Bytes} (single : lineFeed ∉ front) (line rest : Bytes) :
    linesFrom line (front ++ rest) = linesFrom (line ++ front) rest := by
  induction front generalizing line with
  | nil => rw [List.nil_append, List.append_nil]
  | cons c front ih =>
    rw [List.mem_cons, not_or] at single
    rw [List.cons_append, linesFrom, if_neg (Ne.symm single.1), ih single.2, List.append_assoc, List.singleton_append]

theorem called_hear (inStep : InStep conn ch) (single : lineFeed ∉ command) (begins : Bool) :
    Called (command ++ [carriageReturn]) (ch.hear (command ++ [carriageReturn, lineFeed]) begins) := by
  have lines : linesFrom [] (command ++ [carriageReturn, lineFeed]) = [command ++ [carriageReturn]] := by
    rw [linesFrom_append single]
    rfl
  rw [Channel.hear, lines, inStep, List.nil_append, List.flatMap_singleton, repliesTo]
  refine ⟨rfl, ?_⟩
  by_cases both : (isTransfer (command ++ [carriageReturn]) && begins) = true
  · rw [if_pos both]
    exact Or.inr ⟨(Bool.and_eq_true_iff.mp both).1, rfl⟩
  · rw [if_neg both]
    exact Or.inl rfl

theorem Called.fresh {line : Bytes} (called : Called line ch) : ch.Fresh := by
  intro reply rest owed
  rw [called.1]
  rcases called.2 with one | ⟨-, two⟩
  · rw [one] at owed
    cases owed
    rfl
  · rw [two] at owed
    cases owed
    rfl

theorem ftpResponseToVfsResult_preliminary {code : Nat} (preliminary : 100 ≤ code ∧ code < 200) (fivefifty : VfsResult) :
    ftpResponseToVfsResult code fivefifty = .ok := by
  simp only [ftpResponseToVfsResult]
  rw [if_neg (by omega), if_neg (by omega), if_neg (by omega), if_neg (by omega), if_neg (by omega), if_neg (by omega),
    if_neg (by omega), if_neg (by omega), if_pos (by omega)]

/-- Any command: either it is not heard of again, or the transfer has begun, or nothing is to come. -/
theorem talks_doBasicCommand (K : Connection M → Prop) :
    Talks (fun conn ch => InStep conn ch ∧ K conn) (doBasicCommand phase command) fun result conn ch =>
      Begun phase result conn ch ∧ ((K conn ∧ result ≠ .ok) ∨ InStep conn ch ∨
        isTransfer (command ++ [carriageReturn]) = true) := by
  let line := command ++ [carriageReturn]
  let Sent : VfsResult → Connection M → Channel → Prop := fun result conn ch =>
    (result = .ok → Called line ch) ∧ (result ≠ .ok → Ended phase result conn ch) ∧ K conn
  have written : Talks (fun conn ch => InStep conn ch ∧ K conn) (doControlWrite phase command) Sent := by
    apply talks_doControlWrite
    · rintro conn ch begins single ⟨inStep, kept⟩
      exact ⟨fun _ => called_hear inStep single begins, fun never => absurd rfl never, kept⟩
    · rintro conn ch result failing ⟨inStep, kept⟩
      exact ⟨fun fine => absurd fine failing, fun _ _ => inStep, kept⟩
    · rintro conn ch result begins failing stays ⟨inStep, kept⟩
      refine ⟨fun fine => absurd fine failing, fun _ => ?_, kept⟩
      rintro (fine | goes)
      · exact absurd fine failing
      · rw [stays] at goes
        cases goes
  refine written.bind fun result => ?_
  apply Talks.ite
  · intro failing
    apply talks_pure
    rintro conn ch ⟨-, ended, kept⟩
    exact ⟨(ended failing).begun, Or.inl ⟨kept, failing⟩⟩
  · intro fine
    have fine := not_not.mp fine
    apply talks_getResponse
    · exact fun conn ch sent => (sent.1 fine).fresh
    · rintro conn ch failure ⟨called, -, kept⟩ left
      refine ⟨⟨fun never => absurd never failure.2, fun _ => ?_⟩, Or.inl ⟨kept, failure.2⟩⟩
      rintro (never | goes)
      · exact absurd never failure.2
      · rcases left with none | stays
        · exact none
        · rw [stays] at goes
          cases goes
    · rintro conn ch reply rest response ⟨called, -, kept⟩ owed fits
      obtain ⟨last, one | ⟨transfer, two⟩⟩ := called fine
      · rw [one] at owed
        cases owed
        exact ⟨Ended.begun fun _ => rfl, Or.inr (Or.inl rfl)⟩
      · rw [two] at owed
        cases owed
        refine ⟨⟨fun _ => Or.inr ⟨line, rfl, last⟩, ?_⟩, Or.inr (Or.inr transfer)⟩
        intro failing
        rw [Reply.Fits, if_pos rfl] at fits
        exact absurd (ftpResponseToVfsResult_preliminary fits conn.fivefifty) failing

end Talks

section Exchanges

variable {phase : Phase} {command : Bytes}

/-- A command that no transfer comes with. -/
def Bare (command : Bytes) : Prop := isTransfer (command ++ [carriageReturn]) = false

instance (command : Bytes) : Decidable (Bare command) :=
  inferInstanceAs (Decidable (isTransfer (command ++ [carriageReturn]) = false))

theorem bare_append {front : Bytes} (long : 4 ≤ front.length) (bare : isTransfer front = false) (rest : Bytes) :
    Bare (front ++ rest) := by
  rw [Bare, isTransfer, List.append_assoc, List.take_append_of_le_length long]
  exact bare

theorem Bare.talks (bare : Bare command) (K : Connection M → Prop) :
    Talks (fun conn ch => InStep conn ch ∧ K conn) (doBasicCommand phase command) fun result conn ch =>
      Ended phase result conn ch ∧ ((K conn ∧ result ≠ .ok) ∨ InStep conn ch) := by
  apply (talks_doBasicCommand K).mono (fun _ _ => id)
  rintro result conn ch ⟨begun, cases⟩
  have cases : (K conn ∧ result ≠ .ok) ∨ InStep conn ch := by
    rcases cases with left | inStep | never
    · exact Or.inl left
    · exact Or.inr inStep
    · rw [bare] at never
      cases never
  refine ⟨?_, cases⟩
  by_cases fine : result = .ok
  · rcases cases with ⟨-, failing⟩ | inStep
    · exact absurd fine failing
    · exact fun _ => inStep
  · exact begun.2 fine

theorem Bare.ended (bare : Bare command) : Talks (InStep (M := M)) (doBasicCommand phase command) (Ended phase) :=
  (bare.talks fun _ => True).mono (fun _ _ inStep => ⟨inStep, trivial⟩) fun _ _ _ both => both.1

/-- The exchange goes on where the first part has succeeded. -/
theorem Talks.check {Q : VfsResult → Connection M → Channel → Prop} {x next : Conversation M VfsResult}
    {P : Connection M → Channel → Prop} (first : Talks P x (Ended phase))
    (failed : ∀ result conn ch, result ≠ .ok → Ended phase result conn ch → Q result conn ch)
    (second : Talks InStep next Q) :
    Talks P (do
      let result ← x
      if result ≠ .ok then return result
      next) Q := by
  refine first.bind fun result => ?_
  apply Talks.ite
  · exact fun failing => talks_pure fun conn ch ended => failed result conn ch failing ended
  · intro fine
    exact second.mono (fun conn ch ended => ended (Or.inl (not_not.mp fine))) fun _ _ _ => id

theorem bare_cwd (path : Bytes) : Bare (ascii "CWD " ++ path) := bare_append (by decide) (by decide) path

theorem talks_doPathCommand (bare : ∀ name, Bare (command ++ 32 :: name)) (uri : Uri M) :
    Talks InStep (doPathCommand phase command uri) (Ended phase) :=
  Talks.check (bare_cwd _).ended (fun _ _ _ _ => id) (bare _).ended

theorem talks_closeData {P : Connection M → Channel → Prop} (kept : ∀ conn ch, P conn ch → P { conn with hasData := false } ch) :
    Talks P closeData fun _ => P :=
  Talks.bind (talks_data (r := .dataClose) (fun _ _ _ => rfl) fun _ => trivial) fun _ => talks_modify kept

theorem talks_closeUnlessOk {P : Connection M → Channel → Prop} {x : Conversation M VfsResult}
    (talks : Talks P x (Begun phase)) : Talks P (closeUnlessOk x) (Begun phase) := by
  refine talks.bind fun result => ?_
  apply Talks.ite
  · intro failing
    exact Talks.bind (talks_closeData fun _ _ => id) fun _ => talks_pure fun _ _ => id
  · exact fun _ => talks_pure fun _ _ => id

theorem talks_restart : Talks (InStep (M := M)) (restart phase) (Ended phase) := by
  apply Talks.bind (talks_get (Q := fun _ => InStep) fun _ _ => id)
  intro conn
  apply Talks.ite
  · exact fun _ => (bare_append (by decide) (by decide) _).ended
  · exact fun _ => talks_pure fun _ _ inStep _ => inStep

theorem talks_transferTo (address : Bytes × Int) :
    Talks (InStep (M := M)) (transferTo phase command address) (Begun phase) := by
  apply Talks.bind (talks_data (r := .dataConnect address.1 address.2) (fun _ _ _ => rfl) fun _ => trivial)
  intro result
  apply Talks.ite
  · exact fun _ => talks_pure fun _ _ inStep => Ended.begun fun _ => inStep
  · intro _
    refine Talks.bind (R := fun _ => InStep) (talks_modify fun _ _ inStep => inStep) fun _ => ?_
    apply talks_closeUnlessOk
    apply Talks.check talks_restart (fun _ _ _ _ => Ended.begun)
    exact (talks_doBasicCommand fun _ => True).mono (fun _ _ inStep => ⟨inStep, trivial⟩) fun _ _ _ both => both.1

theorem talks_doTransferCommand : Talks (InStep (M := M)) (doTransferCommand phase command) (Begun phase) := by
  apply Talks.check (show Bare (ascii "TYPE I") by decide).ended (fun _ _ _ _ => Ended.begun)
  apply Talks.check (show Bare (ascii "PASV") by decide).ended (fun _ _ _ _ => Ended.begun)
  apply Talks.bind (talks_get (Q := fun _ => InStep) fun _ _ => id)
  intro conn
  cases conn.responseMessage.bind parsePasv with
  | none => exact talks_pure fun _ _ inStep => Ended.begun fun _ => inStep
  | some address => exact talks_transferTo address

theorem talks_doPathTransferCommand (uri : Uri M) :
    Talks InStep (doPathTransferCommand phase command uri) (Begun phase) :=
  Talks.check (bare_cwd _).ended (fun _ _ _ _ => Ended.begun) talks_doTransferCommand

theorem talks_endTransfer : Talks (Transferring (M := M)) (endTransfer phase) (Ended phase) := by
  have response : Talks (Transferring (M := M)) (getResponse phase) (Ended phase) := by
    apply talks_getResponse
    · rintro conn ch (none | ⟨line, one, last⟩) reply rest owed
      · rw [none] at owed
        cases owed
      · rw [one] at owed
        cases owed
        exact last.symm
    · rintro conn ch failure - left (never | goes)
      · exact absurd never failure.2
      · rcases left with none | stays
        · exact none
        · rw [stays] at goes
          cases goes
    · rintro conn ch reply rest response (none | ⟨line, one, last⟩) owed fits
      · rw [none] at owed
        cases owed
      · rw [one] at owed
        cases owed
        exact fun _ => rfl
  apply Talks.bind (talks_get (Q := fun _ => Transferring) fun _ _ => id)
  intro conn
  apply Talks.ite
  · exact fun _ => Talks.bind (talks_closeData fun _ _ => id) fun _ => response
  · exact fun _ => response

/-- Behind these phases nothing is to come, even where the exchange has failed. -/
theorem Ended.inStep {result : VfsResult} (ended : Ended phase result conn ch)
    (goes : ∀ result, goesOn phase result = true) : InStep conn ch := ended (Or.inr (goes result))

/-- The last response has not asked for more. -/
def NotAsked (conn : Connection M) : Prop := ¬ (300 ≤ conn.responseCode ∧ conn.responseCode < 400)

theorem talks_greeting : Talks (fun (_ : Connection M) ch => ch = .greeting) (getResponse .greeting) fun result conn ch =>
    (result = .ok → InStep conn ch ∧ NotAsked conn) ∧ (result = .loginFailed → InStep conn ch) := by
  apply talks_getResponse
  · rintro conn ch rfl reply rest owed
    cases owed
    rfl
  · rintro conn ch failure rfl left
    refine ⟨fun never => absurd never failure.2, ?_⟩
    intro loginFailed
    rcases left with none | stays
    · exact none
    · rw [loginFailed] at stays
      cases stays
  · rintro conn ch reply rest response rfl owed fits
    cases owed
    rw [Reply.Fits, if_neg (by decide)] at fits
    refine ⟨fun _ => ⟨rfl, ?_⟩, fun _ => rfl⟩
    have code := fits.2 rfl
    show ¬ (300 ≤ (response.code : Int) ∧ (response.code : Int) < 400)
    omega

theorem talks_ftpLogin (proxied : Bool) (user password : Bytes) :
    Talks (fun conn ch => InStep conn ch ∧ NotAsked conn) (ftpLogin proxied user password : Conversation M VfsResult)
      fun result conn ch => result = .ok → InStep conn ch := by
  apply Talks.bind (talks_get (Q := fun _ conn ch => InStep conn ch ∧ NotAsked conn) fun _ _ => id)
  intro conn
  have user : Bare (ascii "USER " ++ user ++ if proxied = true then chrAt :: conn.uri.getToplevel.hostName.getD
      (ascii "(null)") else []) := by
    rw [List.append_assoc]
    exact bare_append (by decide) (by decide) _
  have password : Bare (ascii "PASS " ++ password) := bare_append (by decide) (by decide) _
  refine (user.talks NotAsked).bind fun result => ?_
  let Named : Connection M → Channel → Prop := fun conn ch =>
    Ended .login result conn ch ∧ ((NotAsked conn ∧ result ≠ .ok) ∨ InStep conn ch)
  apply Talks.bind (talks_get (Q := fun a conn ch => Named conn ch ∧ a = conn) fun _ _ named => ⟨named, rfl⟩)
  intro first
  apply Talks.bind (talks_get (Q := fun a conn ch => (Named conn ch ∧ first = conn) ∧ a = conn)
    fun _ _ named => ⟨named, rfl⟩)
  intro second
  apply Talks.ite
  · intro asked
    apply password.ended.mono
    · rintro conn ch ⟨⟨⟨-, left | inStep⟩, rfl⟩, rfl⟩
      · exact absurd asked left.1
      · exact inStep
    · exact fun _ _ _ ended fine => ended (Or.inl fine)
  · exact fun _ => talks_pure fun _ _ named fine => named.1.1.1 (Or.inl fine)

theorem talks_setUp (serverType : Option Bytes) :
    Talks (InStep (M := M)) (setUp serverType) fun _ => InStep := by
  have goes : ∀ result, goesOn .setup result = true := fun _ => rfl
  have done : ∀ {command : Bytes}, Bare command → Talks (InStep (M := M)) (doBasicCommand .setup command)
      fun _ => InStep := fun bare => bare.ended.mono (fun _ _ => id) fun _ _ _ ended => ended.inStep goes
  have dirstyle : Bare (ascii "SITE DIRSTYLE") := by decide
  have toggled : Talks (InStep (M := M)) toggleWinntIntoUnixMode fun _ => InStep := by
    refine (done dirstyle).bind fun result => ?_
    apply Talks.bind (talks_get (Q := fun _ => InStep) fun _ _ => id)
    intro conn
    exact Talks.ite (fun _ => done dirstyle) fun _ => talks_pure fun _ _ => id
  have known : ∀ serverType : Option Bytes, Talks (InStep (M := M)) (do
      if serverType.any fun name => name.take 10 = ascii "Windows_NT" then
        let _ ← toggleWinntIntoUnixMode
      modify fun conn => { conn with serverType := serverType }
      return serverType) fun _ => InStep := by
    intro serverType
    have rest : Talks (InStep (M := M)) (do
        modify fun conn => { conn with serverType := serverType }
        return serverType) fun _ => InStep :=
      Talks.bind (R := fun _ => InStep) (talks_modify fun _ _ inStep => inStep) fun _ => talks_pure fun _ _ => id
    exact Talks.ite (fun _ => toggled.bind fun _ => rest) fun _ => rest
  refine (done (show Bare (ascii "TYPE I") by decide)).bind fun _ => ?_
  cases serverType with
  | some name => exact Talks.bind (R := fun _ => InStep) (talks_pure fun _ _ => id) known
  | none =>
    refine (done (show Bare (ascii "SYST") by decide)).bind fun _ => ?_
    refine Talks.bind (R := fun _ => InStep) (talks_get fun _ _ => id) fun conn => ?_
    exact Talks.bind (R := fun _ => InStep) (talks_pure fun _ _ => id) known

theorem talks_tryCandidates : ∀ commands : List Bytes, Talks (InStep (M := M)) (tryCandidates commands)
    fun tried conn ch => Begun .candidate tried.1 conn ch
  | [] => talks_pure fun _ _ inStep => Ended.begun fun _ => inStep
  | [_] => Talks.bind talks_doTransferCommand fun _ => talks_pure fun _ _ => id
  | _ :: next :: rest => by
    refine talks_doTransferCommand.bind fun result => ?_
    apply Talks.ite
    · intro bad
      apply (talks_tryCandidates (next :: rest)).mono
      · intro conn ch begun
        refine (begun.2 ?_).inStep fun _ => rfl
        rw [bad]
        decide
      · exact fun _ _ _ => id
    · exact fun _ => talks_pure fun _ _ => id

theorem talks_getListCommand : Talks (InStep (M := M)) getListCommand
    fun result conn ch => result = .ok → Transferring conn ch := by
  refine Talks.bind (R := fun _ => InStep) (talks_get fun _ _ => id) fun conn => ?_
  refine (talks_tryCandidates _).bind fun tried => ?_
  obtain ⟨result, listCmd⟩ := tried
  apply Talks.ite
  · intro fine
    refine Talks.bind (R := fun _ => Transferring) (talks_modify fun _ _ begun => begun.1 fine) fun _ => ?_
    exact talks_pure fun _ _ transferring _ => transferring
  · intro failing
    have list : Talks (fun (conn : Connection M) ch => Begun .candidate result conn ch)
        (doTransferCommand .transfer (ascii "LIST")) (Begun .transfer) :=
      talks_doTransferCommand.mono (fun _ _ begun => (begun.2 failing).inStep fun _ => rfl) fun _ _ _ => id
    refine list.bind fun result => ?_
    refine Talks.bind (R := fun _ conn ch => Begun .transfer result conn ch) (talks_modify fun _ _ begun => begun) fun _ => ?_
    exact talks_pure fun _ _ begun => begun.1

theorem talks_readListing (fuel : Nat) : Talks (Transferring (M := M)) (readListing fuel) fun _ => Transferring := by
  intro conn v before
  refine Action.safe_loop (fun _ _ conn v => v.interrupted = false → Transferring conn v.channel) ?_ (fun _ _ _ _ => rfl)
    fuel [] before
  intro _ dirlist conn v before
  have round : Talks (Transferring (M := M)) (readListingPart dirlist) fun _ => Transferring := by
    refine Talks.bind (talks_data (r := .dataRead) (fun _ _ _ => rfl) fun _ => trivial) fun read => ?_
    exact Talks.ite (fun _ => talks_pure fun _ _ => id) fun _ => talks_pure fun _ _ => id
  refine Action.safe_mono (round conn v before) ?_ fun _ _ => id
  intro step conn v holds
  cases step with
  | again dirlist => exact holds
  | finish dirlist => exact holds

end Exchanges

end GnomeVfs.Ftp
