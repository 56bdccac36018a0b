import GnomeVfs.FtpControl
import GnomeVfs.SocketInput
import GnomeVfs.UriList
import GnomeVfs.UriRelative

/- The responses of an FTP server: lines that are cut out of what the socket gives, however it is cut up. -/
namespace GnomeVfs.Ftp

open Socket

/-- `MAX_RESPONSE_SIZE`. -/
def maxResponseSize : Nat := 4096

def lineEnd : Bytes := [carriageReturn, lineFeed]

/-- What `get_response` works on: the buffer of the socket, `response_buffer`, and what has been got last. -/
structure Reader where
  socketBuf : Input
  responseBuffer : Bytes
  responseCode : Int
  responseMessage : Option Bytes

/-- What the socket would give that a call has left. -/
def unused (x y : Input) (script : List ReadOutcome) : List ReadOutcome :=
  script.drop (y.requests.length - x.requests.length)

/-- `read_response_line`; what has been read is appended as a string, and a `gint` counts the bytes of a line. There
is no result as long as the socket gives none. -/
def readResponseLine : Nat → Reader → List ReadOutcome → Option ((VfsResult × Option Bytes) × Reader × List ReadOutcome)
  | 0, _, _ => none
  | fuel + 1, conn, script =>
    match strstr conn.responseBuffer lineEnd with
    | some lineLength =>
      some ((.ok, some (conn.responseBuffer.take lineLength)),
        { conn with responseBuffer := conn.responseBuffer.drop (lineLength + 2) }, script)
    | none =>
      (socketBufferRead maxResponseSize conn.socketBuf script).bind fun (reply, input) =>
        let script := unused conn.socketBuf input script
        let conn := { conn with
          socketBuf := input
          responseBuffer := conn.responseBuffer ++ reply.bytes.takeWhile (· ≠ 0) }
        if reply.result ≠ .ok then some ((reply.result, none), conn, script)
        else readResponseLine fuel conn script

def digitValue (c : UInt8) : Nat := c.toNat - 48

/-- A line that begins with a code and white space. -/
def parseLine : Bytes → Option Response
  | a :: b :: c :: d :: message =>
    if isDigit a && isDigit b && isDigit c && isAsciiSpace d then
      some ⟨digitValue a * 100 + digitValue b * 10 + digitValue c, message⟩
    else none
  | _ => none

/-- `get_response`. A line that is not a response is passed over. -/
def getResponseLoop (fivefifty : VfsResult) : Nat → Reader → List ReadOutcome → Option (VfsResult × Reader × List ReadOutcome)
  | 0, _, _ => none
  | fuel + 1, conn, script =>
    (readResponseLine (script.length + 2) conn script).bind fun ((result, line), conn, script) =>
      if result ≠ .ok then some (result, conn, script)
      else
        match line.bind parseLine with
        | some response =>
          some (ftpResponseToVfsResult response.code fivefifty,
            { conn with responseCode := response.code, responseMessage := some response.message }, script)
        | none => getResponseLoop fivefifty fuel conn script

/-- Successive calls, each with the `fivefifty` that is set by then: the code and the message behind each, and its
result. -/
def responses (fuel : Nat) : List VfsResult → Reader → List ReadOutcome →
    List (Int × Option Bytes × VfsResult) × Reader × List ReadOutcome
  | [], conn, script => ([], conn, script)
  | fivefifty :: calls, conn, script =>
    match getResponseLoop fivefifty fuel conn script with
    | none => ([], conn, script)
    | some (result, conn, script) =>
      let rest := responses fuel calls conn script
      ((conn.responseCode, conn.responseMessage, result) :: rest.1, rest.2)

section Lines

variable {text rest line more : Bytes}

/-- The first line of a text, and what is behind it. -/
def splitLine (text : Bytes) : Option (Bytes × Bytes) :=
  (strstr text lineEnd).map fun n => (text.take n, text.drop (n + 2))

theorem strstr_cons (c : UInt8) (text pattern : Bytes) :
    strstr (c :: text) pattern =
      if pattern.isPrefixOf (c :: text) then some 0 else (strstr text pattern).map (· + 1) := by
  rw [strstr, strstr, List.tails_cons, List.findIdx?_cons]

theorem strstr_nil (pattern : Bytes) : strstr [] pattern = if pattern.isPrefixOf [] then some 0 else none := by
  simp [strstr, List.findIdx?_cons]

theorem strstr_le {pattern : Bytes} : ∀ {text : Bytes} {n : Nat}, strstr text pattern = some n →
    n + pattern.length ≤ text.length
  | [], n, found => by
    rw [strstr_nil] at found
    split at found
    · rename_i here
      cases found
      exact Nat.le_trans (by omega) (List.isPrefixOf_iff_prefix.mp here).length_le
    · cases found
  | c :: text, n, found => by
    rw [strstr_cons] at found
    split at found
    · rename_i here
      cases found
      exact Nat.le_trans (by omega) (List.isPrefixOf_iff_prefix.mp here).length_le
    · obtain ⟨m, behind, rfl⟩ := Option.map_eq_some_iff.mp found
      have inside := strstr_le behind
      rw [List.length_cons]
      omega

/-- The first place stays the first where more is appended. -/
theorem strstr_append {pattern : Bytes} : ∀ {text : Bytes} {n : Nat} (more : Bytes), strstr text pattern = some n →
    strstr (text ++ more) pattern = some n
  | [], n, more, found => by
    rw [strstr_nil] at found
    split at found
    · rename_i here
      cases found
      obtain rfl : pattern = [] := List.prefix_nil.mp (List.isPrefixOf_iff_prefix.mp here)
      cases more with
      | nil => rfl
      | cons c more =>
        rw [List.nil_append, strstr_cons, if_pos (by rfl)]
    · cases found
  | c :: text, n, more, found => by
    have inside := strstr_le found
    rw [strstr_cons] at found
    rw [List.cons_append, strstr_cons]
    split at found
    · rename_i here
      cases found
      have longer : pattern <+: c :: (text ++ more) :=
        (List.isPrefixOf_iff_prefix.mp here).trans (List.prefix_append (c :: text) more)
      rw [if_pos (List.isPrefixOf_iff_prefix.mpr longer)]
    · rename_i other
      obtain ⟨m, behind, rfl⟩ := Option.map_eq_some_iff.mp found
      have short : ¬ pattern.isPrefixOf (c :: (text ++ more)) = true := by
        intro here
        refine other (List.isPrefixOf_iff_prefix.mpr ?_)
        exact List.prefix_of_prefix_length_le (List.isPrefixOf_iff_prefix.mp here) (List.prefix_append (c :: text) more)
          (by omega)
      rw [if_neg short, strstr_append more behind]
      rfl

theorem splitLine_append (more : Bytes) (split : splitLine text = some (line, rest)) :
    splitLine (text ++ more) = some (line, rest ++ more) := by
  obtain ⟨n, found, same⟩ := Option.map_eq_some_iff.mp split
  cases same
  have inside : n + 2 ≤ text.length := strstr_le found
  rw [splitLine, strstr_append more found, Option.map_some, List.take_append_of_le_length (by omega),
    List.drop_append_of_le_length inside]

theorem splitLine_length (split : splitLine text = some (line, rest)) : rest.length + 2 ≤ text.length := by
  obtain ⟨n, found, same⟩ := Option.map_eq_some_iff.mp split
  cases same
  have inside : n + 2 ≤ text.length := strstr_le found
  rw [List.length_drop]
  omega

end Lines

section Given

variable {x : Input} {first : UInt8} {more : Bytes} {failure : Failure} {script : List ReadOutcome}

/-- Nothing is left in the buffer of the socket. -/
structure Idle (x : Input) : Prop where
  fits : x.buffer.Fits
  empty : x.buffer.byteCount = 0
  fine : x.buffer.lastError = .ok

theorem idle_init (data : Bytes) (size : data.length = bufferSize) : Idle ⟨.init data, [], [], []⟩ :=
  ⟨⟨size, Nat.zero_le _⟩, rfl, rfl⟩

theorem Buffer.Fits.take_all {b : Buffer} (fits : b.Fits) :
    Memory.slice b.data b.offset (min maxResponseSize b.byteCount) = b.contents ∧
      (b.consume (min maxResponseSize b.byteCount)).Fits ∧
      (b.consume (min maxResponseSize b.byteCount)).byteCount = 0 := by
  have inside := fits.inside
  have all : min maxResponseSize b.byteCount = b.byteCount := Nat.min_eq_right (by
    show b.byteCount ≤ bufferSize
    omega)
  rw [all]
  exact ⟨rfl, (fits.consume (Nat.le_refl _)).1, Nat.sub_self _⟩

/-- What the socket gives is read as it is. -/
theorem Idle.read_bytes (script : List ReadOutcome) (idle : Idle x) (fits : (first :: more).length ≤ bufferSize) :
    ∃ y, socketBufferRead maxResponseSize x (.bytes first more :: script) = some (⟨.ok, first :: more, false⟩, y) ∧
      Idle y ∧ unused x y (.bytes first more :: script) = script := by
  obtain ⟨whole, front, count, error, -⟩ := idle.fits.compact
  have none : x.buffer.compact.byteCount = 0 := count.trans idle.empty
  have all : (first :: more).take (bufferSize - x.buffer.compact.byteCount) = first :: more := by
    rw [none]
    exact List.take_of_length_le fits
  obtain ⟨longer, appended⟩ := whole.append front (first :: more) (by omega)
  have empty : x.buffer.compact.contents = [] := List.length_eq_zero_iff.mp (by rw [whole.length_contents, none])
  rw [empty, List.nil_append] at appended
  obtain ⟨taken, after, left⟩ := Buffer.Fits.take_all longer
  have some : x.buffer.compact.byteCount + (first :: more).length ≠ 0 := by
    rw [List.length_cons]
    omega
  rw [socketBufferRead_eq (by decide), refillEmpty, if_pos idle.empty, refillInputBuffer, if_neg (not_not.mpr idle.fine)]
  dsimp only
  rw [all, Option.map_some, Option.map_some]
  dsimp only
  rw [if_pos rfl, if_pos some, taken, appended]
  refine ⟨_, rfl, ⟨after, left, error.trans idle.fine⟩, ?_⟩
  rw [unused, List.length_append, List.length_singleton, Nat.add_sub_cancel_left]
  rfl

theorem Idle.read_error (failure : Failure) (script : List ReadOutcome) (idle : Idle x) :
    ∃ y, socketBufferRead maxResponseSize x (.error failure :: script) = some (⟨failure.1, [], false⟩, y) ∧
      Idle y ∧ unused x y (.error failure :: script) = script := by
  obtain ⟨whole, -, count, -, -⟩ := idle.fits.compact
  have refilled : ∃ y : Input, refillEmpty x (.error failure :: script) = some (failure.1, y) ∧
      y.buffer = { x.buffer.compact with lastError := .ok } ∧ y.requests.length = x.requests.length + 1 := by
    rw [refillEmpty, if_pos idle.empty, refillInputBuffer, if_neg (not_not.mpr idle.fine)]
    exact ⟨_, rfl, rfl, List.length_append⟩
  obtain ⟨y, done, buffer, asked⟩ := refilled
  have none : y.buffer.byteCount = 0 := by
    rw [buffer]
    exact count.trans idle.empty
  refine ⟨y, ?_, ⟨?_, none, ?_⟩, ?_⟩
  · rw [socketBufferRead_eq (by decide), done, Option.map_some]
    dsimp only
    rw [if_neg (not_not.mpr none)]
  · rw [buffer]
    exact ⟨whole.size, whole.inside⟩
  · rw [buffer]
  · rw [unused, asked, Nat.add_sub_cancel_left]
    rfl

theorem Idle.read_nothing (idle : Idle x) : socketBufferRead maxResponseSize x [] = none := by
  rw [socketBufferRead_eq (by decide), refillEmpty, if_pos idle.empty, refillInputBuffer, if_neg (not_not.mpr idle.fine)]
  rfl

end Given

section Stream

/-- What one read of the socket gives. -/
structure Part where
  first : UInt8
  rest : Bytes
  fits : (first :: rest).length ≤ bufferSize

def Part.bytes (part : Part) : Bytes := part.first :: part.rest

/-- The stream that is given in these parts. -/
def joined (parts : List Part) : Bytes := parts.flatMap Part.bytes

/-- The parts, and what the socket fails with behind them. -/
def arriving (parts : List Part) (ending : List Failure) : List ReadOutcome :=
  parts.map (fun part => .bytes part.first part.rest) ++ ending.map .error

/-- The text is still to be got, from `response_buffer` and from the socket. -/
structure Streams (conn : Reader) (parts : List Part) (text : Bytes) : Prop where
  idle : Idle conn.socketBuf
  clean : 0 ∉ joined parts
  text : conn.responseBuffer ++ joined parts = text

variable {conn : Reader} {parts : List Part} {part : Part} {text rest line : Bytes} {ending : List Failure}
  {failure : Failure} {fuel : Nat}

/-- The connection as a call leaves it that has got no response. -/
structure SameResponse (conn conn' : Reader) : Prop where
  code : conn'.responseCode = conn.responseCode
  message : conn'.responseMessage = conn.responseMessage

theorem arriving_cons (part : Part) (parts : List Part) (ending : List Failure) :
    arriving (part :: parts) ending = .bytes part.first part.rest :: arriving parts ending := rfl

theorem arriving_failure (failure : Failure) (ending : List Failure) :
    arriving [] (failure :: ending) = .error failure :: arriving [] ending := rfl

theorem readResponseLine_part (fuel : Nat) (ending : List Failure) (streams : Streams conn (part :: parts) text)
    (incomplete : strstr conn.responseBuffer lineEnd = none) :
    ∃ conn', readResponseLine (fuel + 1) conn (arriving (part :: parts) ending) =
        readResponseLine fuel conn' (arriving parts ending) ∧ Streams conn' parts text ∧ SameResponse conn conn' := by
  obtain ⟨y, done, idle, left⟩ := streams.idle.read_bytes (arriving parts ending) part.fits
  have clean : 0 ∉ part.bytes ∧ 0 ∉ joined parts := by
    have clean := streams.clean
    rw [joined, List.flatMap_cons, List.mem_append, not_or] at clean
    exact clean
  have whole : (part.first :: part.rest).takeWhile (· ≠ 0) = part.bytes := by
    refine List.takeWhile_eq_self_iff.mpr fun c member => ?_
    simp only [ne_eq, decide_not, Bool.not_eq_true', decide_eq_false_iff_not]
    rintro rfl
    exact clean.1 member
  refine ⟨{ conn with socketBuf := y, responseBuffer := conn.responseBuffer ++ part.bytes }, ?_,
    ⟨idle, clean.2, ?_⟩, ⟨rfl, rfl⟩⟩
  · rw [arriving_cons, readResponseLine, incomplete]
    dsimp only
    rw [done, Option.bind_some]
    dsimp only
    rw [left, whole, if_neg (not_not.mpr rfl)]
  · rw [← streams.text, joined, joined, List.flatMap_cons, List.append_assoc]

theorem Streams.incomplete (streams : Streams conn parts text) (split : splitLine text = none) :
    strstr conn.responseBuffer lineEnd = none := by
  cases found : strstr conn.responseBuffer lineEnd with
  | none => rfl
  | some n =>
    have here : splitLine conn.responseBuffer = some (conn.responseBuffer.take n, conn.responseBuffer.drop (n + 2)) := by
      rw [splitLine, found]
      rfl
    have all := splitLine_append (joined parts) here
    rw [streams.text, split] at all
    cases all

/-- A line that is complete is cut off. -/
theorem readResponseLine_found (ending : List Failure) : ∀ {fuel : Nat} {conn : Reader} {parts : List Part}, Streams conn parts text →
    splitLine text = some (line, rest) → parts.length < fuel →
    ∃ conn' parts', readResponseLine fuel conn (arriving parts ending) = some ((.ok, some line), conn', arriving parts' ending) ∧
      Streams conn' parts' rest ∧ SameResponse conn conn'
  | 0, _, _, _, _, short => absurd short (Nat.not_lt_zero _)
  | fuel + 1, conn, parts, streams, split, enough => by
    cases found : strstr conn.responseBuffer lineEnd with
    | some n =>
      have here : splitLine conn.responseBuffer =
          some (conn.responseBuffer.take n, conn.responseBuffer.drop (n + 2)) := by
        rw [splitLine, found]
        rfl
      have all := splitLine_append (joined parts) here
      rw [streams.text, split] at all
      cases all
      refine ⟨{ conn with responseBuffer := conn.responseBuffer.drop (n + 2) }, parts, ?_,
        ⟨streams.idle, streams.clean, rfl⟩, ⟨rfl, rfl⟩⟩
      rw [readResponseLine, found]
    | none =>
      cases parts with
      | nil =>
        have same : conn.responseBuffer = text := (List.append_nil _).symm.trans streams.text
        rw [splitLine, ← same, found] at split
        cases split
      | cons part parts =>
        obtain ⟨conn', goes, after, same⟩ := readResponseLine_part fuel ending streams found
        obtain ⟨conn'', parts', done, last, alike⟩ := readResponseLine_found ending after split
          (Nat.lt_of_succ_lt_succ enough)
        exact ⟨conn'', parts', goes.trans done, last, ⟨alike.code.trans same.code, alike.message.trans same.message⟩⟩

/-- Without a complete line everything is read, until the socket fails. -/
theorem readResponseLine_failed (failure : Failure) (ending : List Failure) : ∀ {fuel : Nat} {conn : Reader} {parts : List Part}, Streams conn parts text →
    splitLine text = none → parts.length < fuel →
    ∃ conn', readResponseLine fuel conn (arriving parts (failure :: ending)) = some ((failure.1, none), conn', arriving [] ending) ∧
      Streams conn' [] text ∧ SameResponse conn conn'
  | 0, _, _, _, _, short => absurd short (Nat.not_lt_zero _)
  | fuel + 1, conn, parts, streams, split, enough => by
    have incomplete : strstr conn.responseBuffer lineEnd = none := streams.incomplete split
    cases parts with
    | nil =>
      obtain ⟨y, done, idle, left⟩ := streams.idle.read_error failure (arriving [] ending)
      refine ⟨{ conn with socketBuf := y }, ?_, ⟨idle, streams.clean, streams.text⟩, ⟨rfl, rfl⟩⟩
      rw [arriving_failure, readResponseLine, incomplete]
      dsimp only
      rw [done, Option.bind_some]
      dsimp only
      rw [left, if_pos failure.2, List.takeWhile_nil, List.append_nil]
    | cons part parts =>
      obtain ⟨conn', goes, after, same⟩ := readResponseLine_part fuel (failure :: ending) streams incomplete
      obtain ⟨conn'', done, last, alike⟩ := readResponseLine_failed failure ending after split (Nat.lt_of_succ_lt_succ enough)
      exact ⟨conn'', goes.trans done, last, ⟨alike.code.trans same.code, alike.message.trans same.message⟩⟩

theorem readResponseLine_waits : ∀ {fuel : Nat} {conn : Reader} {parts : List Part}, Streams conn parts text →
    splitLine text = none → readResponseLine fuel conn (arriving parts []) = none
  | 0, _, _, _, _ => rfl
  | fuel + 1, conn, parts, streams, split => by
    have incomplete : strstr conn.responseBuffer lineEnd = none := streams.incomplete split
    cases parts with
    | nil =>
      rw [readResponseLine, incomplete]
      show (socketBufferRead maxResponseSize conn.socketBuf []).bind _ = _
      rw [streams.idle.read_nothing]
      rfl
    | cons part parts =>
      obtain ⟨conn', goes, after, -⟩ := readResponseLine_part fuel [] streams incomplete
      exact goes.trans (readResponseLine_waits after split)

end Stream

section Responses

variable {conn : Reader} {parts : List Part} {text rest line : Bytes} {ending : List Failure} {failure : Failure}
  {fuel : Nat} {fivefifty : VfsResult} {response : Response}

/-- The lines of a stream that are complete. -/
def completeLines (text : Bytes) : List Bytes :=
  match _split : splitLine text with
  | none => []
  | some (line, rest) => line :: completeLines rest
termination_by text.length
decreasing_by
  have := splitLine_length _split
  omega

/-- One response for each line that is one. -/
def streamResponses (text : Bytes) : List Response := (completeLines text).filterMap parseLine

/-- The first response of a stream, and what is behind its line. -/
def nextResponse (text : Bytes) : Option (Response × Bytes) :=
  match _split : splitLine text with
  | none => none
  | some (line, rest) =>
    match parseLine line with
    | some response => some (response, rest)
    | none => nextResponse rest
termination_by text.length
decreasing_by
  have := splitLine_length _split
  omega

/-- What is behind the line of a response. -/
def behind : Nat → Bytes → Bytes
  | 0, text => text
  | n + 1, text =>
    match nextResponse text with
    | none => text
    | some (_, rest) => behind n rest

theorem completeLines_none (split : splitLine text = none) : completeLines text = [] := by
  rw [completeLines]
  split
  · rfl
  · rename_i other
    rw [split] at other
    cases other

theorem completeLines_some (split : splitLine text = some (line, rest)) :
    completeLines text = line :: completeLines rest := by
  rw [completeLines]
  split
  · rename_i other
    rw [split] at other
    cases other
  · rename_i other
    rw [split] at other
    cases other
    rfl

theorem nextResponse_none (split : splitLine text = none) : nextResponse text = none := by
  rw [nextResponse]
  split
  · rfl
  · rename_i other
    rw [split] at other
    cases other

theorem nextResponse_some (split : splitLine text = some (line, rest)) :
    nextResponse text = match parseLine line with
      | some response => some (response, rest)
      | none => nextResponse rest := by
  rw [nextResponse]
  split
  · rename_i other
    rw [split] at other
    cases other
  · rename_i other
    rw [split] at other
    cases other
    rfl

theorem lines_induction {P : Bytes → Prop} (incomplete : ∀ text, splitLine text = none → P text)
    (complete : ∀ text line rest, splitLine text = some (line, rest) → P rest → P text) (text : Bytes) : P text := by
  induction length : text.length using Nat.strong_induction_on generalizing text with
  | _ n ih =>
    cases split : splitLine text with
    | none => exact incomplete text split
    | some found =>
      have shorter := splitLine_length split
      exact complete text found.1 found.2 split (ih _ (by omega) found.2 rfl)

theorem streamResponses_eq (text : Bytes) : streamResponses text =
    match nextResponse text with
    | none => []
    | some (response, rest) => response :: streamResponses rest := by
  induction text using lines_induction with
  | incomplete text split =>
    rw [nextResponse_none split, streamResponses, completeLines_none split]
    rfl
  | complete text line rest split ih =>
    rw [nextResponse_some split, streamResponses, completeLines_some split]
    cases parsed : parseLine line with
    | some response => exact List.filterMap_cons_some parsed
    | none => exact (List.filterMap_cons_none parsed).trans ih

theorem nextResponse_length : nextResponse text = some (response, rest) → rest.length + 2 ≤ text.length := by
  induction text using lines_induction with
  | incomplete text split =>
    intro next
    rw [nextResponse_none split] at next
    cases next
  | complete text line behind split ih =>
    intro next
    have shorter := splitLine_length split
    rw [nextResponse_some split] at next
    cases parsed : parseLine line with
    | some response =>
      rw [parsed] at next
      cases next
      exact shorter
    | none =>
      rw [parsed] at next
      have := ih next
      omega

theorem getResponseLoop_found (fivefifty : VfsResult) (ending : List Failure) (next : nextResponse text = some (response, rest)) : ∀ {fuel : Nat} {conn : Reader}
    {parts : List Part}, Streams conn parts text → text.length < fuel →
    ∃ conn' parts', getResponseLoop fivefifty fuel conn (arriving parts ending) =
        some (ftpResponseToVfsResult response.code fivefifty, conn', arriving parts' ending) ∧ Streams conn' parts' rest ∧
      conn'.responseCode = response.code ∧ conn'.responseMessage = some response.message := by
  induction text using lines_induction with
  | incomplete text split =>
    rw [nextResponse_none split] at next
    cases next
  | complete text line behind split ih =>
    intro fuel conn parts streams enough
    have shorter := splitLine_length split
    have reads : parts.length < (arriving parts ending).length + 2 := by
      rw [arriving, List.length_append, List.length_map]
      omega
    obtain ⟨conn', parts', done, after, same⟩ := readResponseLine_found ending streams split reads
    rw [nextResponse_some split] at next
    cases fuel with
    | zero => exact absurd enough (Nat.not_lt_zero _)
    | succ fuel =>
      rw [getResponseLoop, done, Option.bind_some]
      dsimp only
      rw [if_neg (not_not.mpr rfl), Option.bind_some]
      cases parsed : parseLine line with
      | some response =>
        rw [parsed] at next
        cases next
        exact ⟨_, parts', rfl, ⟨after.idle, after.clean, after.text⟩, rfl, rfl⟩
      | none =>
        rw [parsed] at next
        exact ih next after (by omega)

/-- Without a response the call comes to the end of the stream. -/
theorem getResponseLoop_failed (fivefifty : VfsResult) (failure : Failure) (ending : List Failure) : ∀ {fuel : Nat} {conn : Reader} {parts : List Part}, Streams conn parts text →
    nextResponse text = none → text.length < fuel →
    ∃ conn' text', getResponseLoop fivefifty fuel conn (arriving parts (failure :: ending)) =
        some (failure.1, conn', arriving [] ending) ∧ Streams conn' [] text' ∧ nextResponse text' = none ∧
      text'.length ≤ text.length ∧ SameResponse conn conn' := by
  induction text using lines_induction with
  | incomplete text split =>
    intro fuel conn parts streams none enough
    have reads : parts.length < (arriving parts (failure :: ending)).length + 2 := by
      rw [arriving, List.length_append, List.length_map]
      omega
    obtain ⟨conn', done, after, same⟩ := readResponseLine_failed failure ending streams split reads
    cases fuel with
    | zero => exact absurd enough (Nat.not_lt_zero _)
    | succ fuel =>
      rw [getResponseLoop, done, Option.bind_some]
      exact ⟨conn', text, if_pos failure.2, after, none, Nat.le_refl _, same⟩
  | complete text line rest split ih =>
    intro fuel conn parts streams none enough
    have shorter := splitLine_length split
    have reads : parts.length < (arriving parts (failure :: ending)).length + 2 := by
      rw [arriving, List.length_append, List.length_map]
      omega
    obtain ⟨conn', parts', done, after, same⟩ := readResponseLine_found (failure :: ending) streams split reads
    rw [nextResponse_some split] at none
    cases parsed : parseLine line with
    | some response =>
      rw [parsed] at none
      cases none
    | none =>
      rw [parsed] at none
      cases fuel with
      | zero => exact absurd enough (Nat.not_lt_zero _)
      | succ fuel =>
        have room : rest.length < fuel := by omega
        obtain ⟨conn'', text', failed, last, still, less, alike⟩ := ih after none room
        refine ⟨conn'', text', ?_, last, still, Nat.le_trans less (by omega),
          ⟨alike.code.trans same.code, alike.message.trans same.message⟩⟩
        rw [getResponseLoop, done, Option.bind_some]
        dsimp only
        rw [if_neg (not_not.mpr rfl), Option.bind_some, parsed]
        exact failed

theorem getResponseLoop_waits : ∀ {fuel : Nat} {conn : Reader} {parts : List Part}, Streams conn parts text →
    nextResponse text = none → getResponseLoop fivefifty fuel conn (arriving parts []) = none := by
  induction text using lines_induction with
  | incomplete text split =>
    intro fuel conn parts streams none
    cases fuel with
    | zero => rfl
    | succ fuel =>
      rw [getResponseLoop, readResponseLine_waits streams split]
      rfl
  | complete text line rest split ih =>
    intro fuel conn parts streams none
    have reads : parts.length < (arriving parts []).length + 2 := by
      rw [arriving, List.length_append, List.length_map]
      omega
    obtain ⟨conn', parts', done, after, -⟩ := readResponseLine_found [] streams split reads
    rw [nextResponse_some split] at none
    cases parsed : parseLine line with
    | some response =>
      rw [parsed] at none
      cases none
    | none =>
      rw [parsed] at none
      cases fuel with
      | zero => rfl
      | succ fuel =>
        rw [getResponseLoop, done, Option.bind_some]
        dsimp only
        rw [if_neg (not_not.mpr rfl), Option.bind_some, parsed]
        exact ih after none

/-- What successive calls come to: the responses of the stream, and behind them the failures of the socket, which
leave the code and the message as they are. -/
def expected : List VfsResult → List Response → List Failure → Int × Option Bytes → List (Int × Option Bytes × VfsResult)
  | [], _, _, _ => []
  | fivefifty :: calls, response :: rest, ending, _ =>
    (response.code, some response.message, ftpResponseToVfsResult response.code fivefifty) ::
      expected calls rest ending (response.code, some response.message)
  | _ :: calls, [], failure :: ending, last => (last.1, last.2, failure.1) :: expected calls [] ending last
  | _ :: _, [], [], _ => []

theorem responses_eq (calls : List VfsResult) : ∀ {conn : Reader} {parts : List Part} {text : Bytes} (ending : List Failure),
    Streams conn parts text → text.length < fuel →
    (responses fuel calls conn (arriving parts ending)).1 =
        expected calls (streamResponses text) ending (conn.responseCode, conn.responseMessage) ∧
      (calls.length ≤ (streamResponses text).length → ∃ parts',
        (responses fuel calls conn (arriving parts ending)).2.2 = arriving parts' ending ∧
        Streams (responses fuel calls conn (arriving parts ending)).2.1 parts' (behind calls.length text)) := by
  induction calls with
  | nil =>
    intro conn parts text ending streams _
    refine ⟨?_, fun _ => ⟨parts, rfl, streams⟩⟩
    rw [responses, expected]
  | cons fivefifty calls ih =>
    intro conn parts text ending streams enough
    have first := streamResponses_eq text
    cases next : nextResponse text with
    | some found =>
      obtain ⟨response, rest⟩ := found
      rw [next] at first
      obtain ⟨conn', parts', done, after, code, message⟩ := getResponseLoop_found fivefifty ending next
        streams enough
      have shorter := nextResponse_length next
      obtain ⟨listed, left⟩ := ih ending after (by omega)
      rw [responses, done, first]
      dsimp only
      rw [expected, listed, code, message, List.length_cons, List.length_cons, behind, next]
      exact ⟨rfl, fun few => left (Nat.le_of_succ_le_succ few)⟩
    | none =>
      rw [next] at first
      rw [first]
      refine ⟨?_, fun few => ?_⟩
      · cases ending with
        | nil =>
          rw [responses, getResponseLoop_waits streams next, expected]
        | cons failure ending =>
          obtain ⟨conn', text', failed, after, none, less, same⟩ := getResponseLoop_failed fivefifty
            failure ending streams next enough
          have listed := (ih ending after (by omega)).1
          have nothing := streamResponses_eq text'
          rw [none] at nothing
          rw [nothing, same.code, same.message] at listed
          rw [responses, failed, expected]
          dsimp only
          rw [listed, same.code, same.message]
      · rw [List.length_cons, List.length_nil] at few
        omega

/-- The responses that are got are those of the lines of the stream, whatever the parts in which it is given, and what
is behind the last of their lines stays to be read. -/
theorem responses_of_stream (data : Bytes) (size : data.length = bufferSize) (parts : List Part) (clean : 0 ∉ joined parts)
    (ending : List Failure) (calls : List VfsResult) (code : Int) (message : Option Bytes) (fuel : Nat)
    (enough : (joined parts).length < fuel) :
    (responses fuel calls ⟨⟨.init data, [], [], []⟩, [], code, message⟩ (arriving parts ending)).1 =
        expected calls (streamResponses (joined parts)) ending (code, message) ∧
      (calls.length ≤ (streamResponses (joined parts)).length → ∃ parts',
        (responses fuel calls ⟨⟨.init data, [], [], []⟩, [], code, message⟩ (arriving parts ending)).2.2 = arriving parts' ending ∧
        Streams (responses fuel calls ⟨⟨.init data, [], [], []⟩, [], code, message⟩ (arriving parts ending)).2.1 parts'
          (behind calls.length (joined parts))) :=
  responses_eq calls ending ⟨idle_init data size, clean, rfl⟩ enough

/-- A response whose line is cut between its last two bytes. -/
theorem responses_of_cut_line :
    (responses 20 [.notFound] ⟨⟨.init (List.replicate bufferSize 0), [], [], []⟩, [], -1, none⟩
      (arriving [⟨50, ascii "00 a\r", by decide⟩, ⟨10, [], by decide⟩] [])).1 = [(200, some (ascii "a"), .ok)] := by
  have line : completeLines (ascii "200 a\r\n") = [ascii "200 a"] := by
    rw [completeLines_some (show splitLine (ascii "200 a\r\n") = some (ascii "200 a", []) by decide),
      completeLines_none (show splitLine [] = none by decide)]
  have listed := (responses_of_stream (List.replicate bufferSize 0) List.length_replicate
    [⟨50, ascii "00 a\r", by decide⟩, ⟨10, [], by decide⟩] (by decide) [] [.notFound] (-1) none 20 (by decide)).1
  have stream : joined [⟨50, ascii "00 a\r", by decide⟩, ⟨10, [], by decide⟩] = ascii "200 a\r\n" := by decide
  rw [stream, streamResponses, line] at listed
  exact listed

end Responses

end GnomeVfs.Ftp
