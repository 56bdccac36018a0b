import GnomeVfs.CString
import GnomeVfs.Result
import GnomeVfs.Transition

/- The buffer that the type of a file is sniffed from, and the tests for text and for MP3. -/
namespace GnomeVfs.Sniff

/-- `GnomeVFSMimeSniffBuffer`, with what its read callback has not given yet and how often it was called. -/
structure SniffBuffer where
  buffer : Bytes
  allocated : Nat
  readWholeFile : Bool
  rest : Bytes
  reads : Nat

def fresh (stream : Bytes) : SniffBuffer := ⟨[], 0, false, stream, 0⟩

def minChunk : Nat := 128

/-- The read callback gives one byte more than the splitting says for this call at most, and `GNOME_VFS_ERROR_EOF` at
the end of the stream. -/
def read (split : Nat → Nat) (s : SniffBuffer) (bytes : Nat) : VfsResult × Bytes :=
  if s.rest = [] then (.eof, []) else (.ok, s.rest.take (min bytes (split s.reads + 1)))

/-- Room is made for so many bytes, and what the callback gives is read into it. -/
def readMore (split : Nat → Nat) (s : SniffBuffer) (bytesToRead : Nat) : SniffBuffer :=
  { buffer := s.buffer ++ (read split s bytesToRead).2
    allocated := s.buffer.length + bytesToRead
    readWholeFile := (read split s bytesToRead).1 = .eof
    rest := s.rest.drop (read split s bytesToRead).2.length
    reads := s.reads + 1 }

/-- `_gnome_vfs_mime_sniff_buffer_get`. -/
def get (split : Nat → Nat) (size : Int) (s : SniffBuffer) : VfsResult × SniffBuffer :=
  if size ≤ s.buffer.length then (.ok, s)
  else if s.readWholeFile then (.eof, s)
  else
    let s := readMore split s (max (size - s.buffer.length).toNat minChunk)
    (if size ≤ s.buffer.length then .ok else .eof, s)

section Text

/-- What `mbrtowc` finds: a character of so many bytes and one more, or none. -/
inductive Converted where
  | illegal | incomplete | zero | char (wc : UInt32) (more : Nat)

/-- The functions of GLib and of the C library that tell text, where `g_utf8_validate` gives the place of what is not
valid, if there is any. -/
structure Locale (Shift : Type) where
  utf8Invalid : Bytes → Option Nat
  isTruncatedChar : Bytes → Bool
  start : Shift
  mbrtowc : Shift → Bytes → Converted × Shift
  iswspace : UInt32 → Bool
  iswprint : UInt32 → Bool

variable {Shift : Type}

/-- The loop over the characters, each of which has a byte at least. -/
def wideText (locale : Locale Shift) : Nat → Shift → Bytes → Bool
  | 0, _, _ => true
  | fuel + 1, state, src =>
    if src = [] then true
    else
      match locale.mbrtowc state src with
      | (.illegal, _) => false
      | (.incomplete, _) => true
      | (.zero, _) => false
      | (.char wc more, state) =>
        if !locale.iswspace wc && !locale.iswprint wc then false else wideText locale fuel state (src.drop (more + 1))

/-- What is made of the bytes in the buffer. -/
def textVerdict (locale : Locale Shift) (buffer : Bytes) : Bool :=
  if buffer = [] then true
  else if (0 : UInt8) ∈ buffer then false
  else
    match locale.utf8Invalid buffer with
    | none => true
    | some place =>
      if locale.isTruncatedChar (buffer.drop place) then true else wideText locale buffer.length locale.start buffer

def textSniffLength : Nat := 256

/-- `_gnome_vfs_sniff_buffer_looks_like_text`, where the result of the call is not looked at. -/
def looksLikeText (locale : Locale Shift) (split : Nat → Nat) (s : SniffBuffer) : Bool :=
  textVerdict locale (get split textSniffLength s).2.buffer

end Text

def bitrates : List (List Nat) :=
  [[0, 32, 40, 48, 56, 64, 80, 96, 112, 128, 160, 192, 224, 256, 320],
    [0, 8, 16, 24, 32, 40, 48, 56, 64, 80, 96, 112, 128, 144, 160]]

def frequencies : List (List Nat) := [[44100, 48000, 32000], [22050, 24000, 16000]]

/-- `get_mp3_frame_length`. -/
def getMp3FrameLength (mp3Header : UInt32) : Nat :=
  let ver := 4 - ((mp3Header >>> 19) &&& 3).toNat
  let br := ((mp3Header >>> 12) &&& 0xf).toNat
  let srf := ((mp3Header >>> 10) &&& 3).toNat
  if mp3Header &&& 0xffe20000 = 0xffe20000 ∧ (ver = 1 ∨ ver = 2) ∧ 0 < br ∧ br < 15 ∧ srf ≠ 3 ∧ mp3Header &&& 3 ≠ 2 then
    (bitrates.getD (ver - 1) []).getD br 0 * 144000 / (frequencies.getD (ver - 1) []).getD srf 0 +
      ((mp3Header >>> 9) &&& 1).toNat - 4
  else 0

/-- `get_4_byte_value`. -/
def get4ByteValue (bytes : Bytes) : UInt32 := (bytes.take 4).foldl (fun value c => value <<< 8 ||| c.toUInt32) 0

def mp3SniffLength : Nat := 256

/-- A tag in front of the frames. -/
def hasId3 (buffer : Bytes) : Bool :=
  (ascii "ID3").isPrefixOf buffer && byteAt buffer 3 ≠ 0xff && byteAt buffer 4 ≠ 0xff && byteAt buffer 6 < 0x80 &&
    byteAt buffer 7 < 0x80 && byteAt buffer 8 < 0x80 && byteAt buffer 9 < 0x80

/-- The identification header of Vorbis at one of the offsets that are looked at. -/
def hasVorbis (buffer : Bytes) : Bool :=
  (List.range' 10 (mp3SniffLength - 7 - 10)).any fun offset => (1 :: ascii "vorbis").isPrefixOf (buffer.drop offset)

/-- Where the frame behind the first one would start. -/
def nextFrameFrom : Bytes → Nat → UInt32 → Option Nat
  | [], _, _ => none
  | c :: rest, offset, header =>
    let header := header <<< 8 ||| c.toUInt32
    if getMp3FrameLength header ≠ 0 then some (offset + 1 + getMp3FrameLength header) else nextFrameFrom rest (offset + 1) header

def nextFrame (buffer : Bytes) : Option Nat := nextFrameFrom (buffer.take mp3SniffLength) 0 0

/-- `_gnome_vfs_sniff_buffer_looks_like_mp3`. -/
def looksLikeMp3 (split : Nat → Nat) (s : SniffBuffer) : Bool :=
  let (result, s) := get split mp3SniffLength s
  if result ≠ .ok then false
  else if hasId3 s.buffer then !hasVorbis s.buffer
  else
    match nextFrame s.buffer with
    | none => false
    | some offset =>
      let (result, s) := get split (offset + 4 : Nat) s
      if result ≠ .ok then false else getMp3FrameLength (get4ByteValue (s.buffer.drop offset)) ≠ 0

section Chunks

variable {split split' : Nat → Nat} {stream : Bytes} {s : SniffBuffer} {size : Int}

/-- The buffer holds what has been read of the stream. -/
structure SniffBuffer.Sound (s : SniffBuffer) (stream : Bytes) : Prop where
  split : s.buffer ++ s.rest = stream
  fits : s.buffer.length ≤ s.allocated
  whole : s.readWholeFile = true → s.rest = []

theorem fresh_sound (stream : Bytes) : (fresh stream).Sound stream :=
  ⟨rfl, Nat.le_refl _, fun wrong => absurd wrong Bool.false_ne_true⟩

theorem read_eq (split : Nat → Nat) (s : SniffBuffer) (bytes : Nat) :
    read split s bytes = (if s.rest = [] then .eof else .ok, s.rest.take (min bytes (split s.reads + 1))) := by
  rw [read]
  split
  · rename_i over_stream
    rw [over_stream, List.take_nil]
  · rfl

theorem readMore_sound (sound : s.Sound stream) (split : Nat → Nat) (bytes : Nat) : (readMore split s bytes).Sound stream := by
  refine ⟨?_, ?_, fun whole => ?_⟩
  · rw [readMore, read_eq]
    dsimp only
    rw [List.append_assoc, List.length_take, List.take_eq_take_min, List.take_append_drop]
    exact sound.split
  · rw [readMore, read_eq]
    dsimp only
    rw [List.length_append, List.length_take]
    omega
  · rw [readMore, read_eq] at whole ⊢
    dsimp only at whole ⊢
    split at whole
    · rename_i over_stream
      rw [over_stream, List.drop_nil]
    · cases whole

theorem get_cases (split : Nat → Nat) (size : Int) (s : SniffBuffer) :
    (size ≤ s.buffer.length ∧ get split size s = (.ok, s)) ∨
      (s.buffer.length < size ∧ s.readWholeFile = true ∧ get split size s = (.eof, s)) ∨
      (s.buffer.length < size ∧ ∃ more, more = readMore split s (max (size - s.buffer.length).toNat minChunk) ∧
        get split size s = (if size ≤ more.buffer.length then .ok else .eof, more)) := by
  rw [get]
  by_cases enough : size ≤ s.buffer.length
  · exact Or.inl ⟨enough, if_pos enough⟩
  have short : (s.buffer.length : Int) < size := by omega
  rw [if_neg enough]
  cases whole : s.readWholeFile with
  | true => exact Or.inr (Or.inl ⟨short, rfl, rfl⟩)
  | false => exact Or.inr (Or.inr ⟨short, _, rfl, rfl⟩)

theorem get_sound (sound : s.Sound stream) (split : Nat → Nat) (size : Int) : (get split size s).2.Sound stream := by
  obtain ⟨-, same⟩ | ⟨-, -, same⟩ | ⟨-, more, read, same⟩ := get_cases split size s
  · rw [same]
    exact sound
  · rw [same]
    exact sound
  · rw [same, read]
    exact readMore_sound sound split _

theorem readMore_length (split : Nat → Nat) (s : SniffBuffer) (bytes : Nat) :
    (readMore split s bytes).buffer.length = s.buffer.length + min (min bytes (split s.reads + 1)) s.rest.length := by
  rw [readMore, read_eq]
  dsimp only
  rw [List.length_append, List.length_take]

/-- A call succeeds when the buffer has what was asked for then. -/
theorem get_ok_iff (split : Nat → Nat) (size : Int) (s : SniffBuffer) :
    (get split size s).1 = .ok ↔ size ≤ (get split size s).2.buffer.length := by
  obtain ⟨enough, same⟩ | ⟨short, -, same⟩ | ⟨-, more, -, same⟩ := get_cases split size s
  · rw [same]
    exact ⟨fun _ => enough, fun _ => rfl⟩
  · rw [same]
    dsimp only
    exact ⟨fun wrong => (by cases wrong), fun wrong => absurd short (by omega)⟩
  · rw [same]
    dsimp only
    split
    · rename_i enough
      exact ⟨fun _ => enough, fun _ => rfl⟩
    · rename_i few
      exact ⟨fun wrong => (by cases wrong), fun wrong => absurd wrong few⟩

/-- Every call, whatever is asked for. -/
def step (split : Nat → Nat) (s : SniffBuffer) (size : Int) : Option SniffBuffer := some (get split size s).2

/-- Where the stream has what is missing, the read gives it. -/
def Answers (split : Nat → Nat) (s : SniffBuffer) (size : Int) : Prop :=
  s.buffer.length < size → size - s.buffer.length ≤ s.rest.length → size - s.buffer.length ≤ split s.reads + 1

/-- The read gives what is missing, or all that there is. -/
def Reaches (split : Nat → Nat) (s : SniffBuffer) (size : Int) : Prop :=
  s.buffer.length < size → size - s.buffer.length ≤ split s.reads + 1 ∨ s.rest.length ≤ split s.reads + 1

/-- A call tells rightly whether the stream has so many bytes, just when its read gives what the stream has. -/
theorem get_right_iff (sound : s.Sound stream) (split : Nat → Nat) (size : Int) :
    ((get split size s).1 = .ok ↔ size ≤ stream.length) ↔ Answers split s size := by
  have length : stream.length = s.buffer.length + s.rest.length := by rw [← sound.split, List.length_append]
  rw [Answers, get_ok_iff]
  obtain ⟨enough, same⟩ | ⟨short, whole, same⟩ | ⟨short, more, read, same⟩ := get_cases split size s
  · rw [same]
    exact ⟨fun _ wrong => by omega, fun _ => ⟨fun _ => by omega, fun _ => enough⟩⟩
  · have none_left := sound.whole whole
    rw [none_left, List.length_nil] at length ⊢
    rw [same]
    dsimp only
    exact ⟨fun _ _ wrong => by omega, fun _ => ⟨fun wrong => by omega, fun wrong => by omega⟩⟩
  · have count := readMore_length split s (max (size - s.buffer.length).toNat minChunk)
    rw [same]
    dsimp only
    rw [read, count, minChunk]
    constructor
    · intro right _ has
      have := right.mpr (by omega)
      omega
    · intro answers
      have := answers short
      omega

theorem get_fresh (split : Nat → Nat) (stream : Bytes) :
    (get split 256 (fresh stream)).2.buffer = stream.take (min 256 (split 0 + 1)) := by
  have short : ¬ (256 : Int) ≤ (fresh stream).buffer.length := by
    show ¬ (256 : Int) ≤ (0 : Nat)
    omega
  have unread : ¬ (fresh stream).readWholeFile = true := Bool.false_ne_true
  rw [get, if_neg short, if_neg unread]
  dsimp only
  rw [readMore, read_eq]
  rfl

theorem looksLikeText_eq {Shift : Type} (locale : Locale Shift) (reaches : Reaches split (fresh stream) textSniffLength) :
    looksLikeText locale split (fresh stream) = textVerdict locale (stream.take textSniffLength) := by
  have empty : ((fresh stream).buffer.length : Int) < textSniffLength := by
    show ((0 : Nat) : Int) < (256 : Nat)
    omega
  have far : (256 : Int) - 0 ≤ split 0 + 1 ∨ stream.length ≤ split 0 + 1 := reaches empty
  have same : stream.take (min 256 (split 0 + 1)) = stream.take 256 := by
    rw [List.take_eq_take_iff]
    omega
  exact congrArg (textVerdict locale) ((get_fresh split stream).trans same)

/-- The calls that the test for MP3 makes are answered with what the stream has. There is a second one where the first
succeeds and no tag decides. -/
def Mp3Answers (split : Nat → Nat) (stream : Bytes) : Prop :=
  Answers split (fresh stream) mp3SniffLength ∧
    ((get split mp3SniffLength (fresh stream)).1 = .ok →
      hasId3 (get split mp3SniffLength (fresh stream)).2.buffer = false →
      ∀ offset, nextFrame (get split mp3SniffLength (fresh stream)).2.buffer = some offset →
        Answers split (get split mp3SniffLength (fresh stream)).2 (offset + 4 : Nat))

/-- What the test for MP3 makes of a stream. -/
def mp3Verdict (stream : Bytes) : Bool :=
  if stream.length < mp3SniffLength then false
  else if hasId3 (stream.take mp3SniffLength) then !hasVorbis (stream.take mp3SniffLength)
  else
    match nextFrame (stream.take mp3SniffLength) with
    | none => false
    | some offset => if stream.length < offset + 4 then false else getMp3FrameLength (get4ByteValue (stream.drop offset)) ≠ 0

theorem get4ByteValue_prefix {front : Bytes} {offset : Nat} (back : Bytes) (within : offset + 4 ≤ front.length) :
    get4ByteValue ((front ++ back).drop offset) = get4ByteValue (front.drop offset) := by
  rw [get4ByteValue, get4ByteValue, List.drop_append_of_le_length (by omega), List.take_append_of_le_length (by rw [List.length_drop]; omega)]

theorem looksLikeMp3_eq (answers : Mp3Answers split stream) : looksLikeMp3 split (fresh stream) = mp3Verdict stream := by
  obtain ⟨first, second⟩ := answers
  have sound := get_sound (fresh_sound stream) split mp3SniffLength
  have right := (get_right_iff (fresh_sound stream) split mp3SniffLength).mpr first
  rw [looksLikeMp3, mp3Verdict]
  dsimp only
  by_cases few : stream.length < mp3SniffLength
  · have failed : (get split mp3SniffLength (fresh stream)).1 ≠ .ok := fun ok => by
      have := right.mp ok
      omega
    rw [if_pos few, if_pos failed]
  have enough := right.mpr (by omega)
  rw [if_neg few, if_neg (not_not_intro enough)]
  have buffer : (get split mp3SniffLength (fresh stream)).2.buffer = stream.take mp3SniffLength := by
    have long := (get_ok_iff split mp3SniffLength (fresh stream)).mp enough
    have given := get_fresh split stream
    have same : (get split mp3SniffLength (fresh stream)).2.buffer = stream.take (min 256 (split 0 + 1)) := given
    rw [same, List.length_take] at long
    rw [same, List.take_eq_take_iff, mp3SniffLength] at *
    omega
  rw [buffer]
  cases tag : hasId3 (stream.take mp3SniffLength) with
  | true => rw [if_pos rfl, if_pos rfl]
  | false =>
    rw [if_neg Bool.false_ne_true, if_neg Bool.false_ne_true]
    cases frame : nextFrame (stream.take mp3SniffLength) with
    | none => rfl
    | some offset =>
      dsimp only
      have again := (get_right_iff sound split (offset + 4 : Nat)).mpr (second enough (by rw [buffer, tag]) offset (by rw [buffer, frame]))
      have later := get_sound sound split (offset + 4 : Nat)
      by_cases far : stream.length < offset + 4
      · have failed : (get split (offset + 4 : Nat) (get split mp3SniffLength (fresh stream)).2).1 ≠ .ok := fun ok => by
          have := again.mp ok
          omega
        rw [if_pos far, if_pos failed]
      have more := again.mpr (by omega)
      have long := (get_ok_iff split _ _).mp more
      rw [if_neg far, if_neg (not_not_intro more), ← get4ByteValue_prefix _ (by omega), later.split]

/-- In every run of calls on a fresh buffer it holds a prefix of the stream, and a call is right about the length of the
stream just when its read gives what the stream has; so streams whose reads do are judged alike however they are split. -/
theorem sniffing_follows_stream (stream : Bytes) :
    (∀ (split : Nat → Nat) (s : SniffBuffer), Transition.Run (step split) (fun _ _ => True) (fresh stream) s →
      s.buffer <+: stream ∧ s.buffer.length ≤ s.allocated ∧
        ∀ size : Int, ((get split size s).1 = .ok ↔ size ≤ stream.length) ↔ Answers split s size) ∧
    (∀ (Shift : Type) (locale : Locale Shift) (split split' : Nat → Nat),
      Reaches split (fresh stream) textSniffLength → Reaches split' (fresh stream) textSniffLength →
        looksLikeText locale split (fresh stream) = looksLikeText locale split' (fresh stream)) ∧
    ∀ split split' : Nat → Nat, Mp3Answers split stream → Mp3Answers split' stream →
      looksLikeMp3 split (fresh stream) = looksLikeMp3 split' (fresh stream) := by
  refine ⟨fun split s run => ?_, fun Shift locale split split' reaches reaches' => ?_, fun split split' answers answers' => ?_⟩
  · have sound : s.Sound stream := by
      refine run.keeps (P := fun s => s.Sound stream) (fresh_sound stream) fun s size t sound _ stepped => ?_
      cases stepped
      exact get_sound sound split size
    exact ⟨⟨s.rest, sound.split⟩, sound.fits, get_right_iff sound split⟩
  · rw [looksLikeText_eq locale reaches, looksLikeText_eq locale reaches']
  · rw [looksLikeMp3_eq answers, looksLikeMp3_eq answers']

/-- The locale of ASCII. -/
def asciiLocale : Locale Unit where
  utf8Invalid := fun bytes => bytes.findIdx? (0x80 ≤ ·)
  isTruncatedChar := fun _ => false
  start := ()
  mbrtowc := fun _ bytes =>
    let c := byteAt bytes 0
    (if 0x80 ≤ c then .illegal else if c = 0 then .zero else .char c.toUInt32 0, ())
  iswspace := fun wc => 9 ≤ wc && wc ≤ 13 || wc = 32
  iswprint := fun wc => 32 ≤ wc && wc < 127

theorem hasVorbis_of_absent {buffer : Bytes} (absent : (1 : UInt8) ∉ buffer) : hasVorbis buffer = false := by
  rw [hasVorbis, List.any_eq_false]
  intro offset _ here
  rw [List.isPrefixOf_iff_prefix] at here
  obtain ⟨more, split⟩ := here
  have member : (1 : UInt8) ∈ buffer.drop offset := by
    rw [← split, List.cons_append]
    exact List.mem_cons_self
  exact absent (List.mem_of_mem_drop member)

theorem looksLikeMp3_of_id3 (enough : (get split mp3SniffLength s).1 = .ok) (id3 : hasId3 (get split mp3SniffLength s).2.buffer = true)
    (absent : (1 : UInt8) ∉ (get split mp3SniffLength s).2.buffer) : looksLikeMp3 split s = true := by
  rw [looksLikeMp3]
  dsimp only
  rw [if_neg (not_not_intro enough), if_pos id3, hasVorbis_of_absent absent]
  rfl

/-- Read byte by byte, two bytes are said to end after the first, and are text for want of the second; and a tag of an MP3
is not seen. -/
theorem short_read_misjudged :
    (get (fun _ => 0) 2 (fresh [97, 0])).1 = .eof ∧ (2 : Int) ≤ ([97, 0] : Bytes).length ∧
    looksLikeText asciiLocale (fun _ => 0) (fresh [97, 0]) = true ∧
    looksLikeText asciiLocale (fun _ => 255) (fresh [97, 0]) = false ∧
    looksLikeMp3 (fun _ => 0) (fresh (ascii "ID3" ++ List.replicate 253 0)) = false ∧
    looksLikeMp3 (fun _ => 255) (fresh (ascii "ID3" ++ List.replicate 253 0)) = true := by
  refine ⟨?_, ?_, ?_, ?_, ?_, looksLikeMp3_of_id3 ?_ ?_ ?_⟩ <;> decide +kernel

end Chunks

end GnomeVfs.Sniff
