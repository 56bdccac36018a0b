import GnomeVfs.UriCanonical
import GnomeVfs.UriRelativeAuthority

/- The editors of URIs that work in a copy of the text, with every index into the copy: where one is
outside of it, there is no result. -/
namespace GnomeVfs.InPlace

def read (copy : Bytes) (i : Int) : Option UInt8 := if 0 ≤ i then copy[i.toNat]? else none

def write (copy : Bytes) (i : Int) (c : UInt8) : Option Bytes :=
  if 0 ≤ i ∧ i < copy.length then some (copy.set i.toNat c) else none

/-- What a function of the C library reads of a string, up to its NUL. -/
def stringAt (copy : Bytes) (i : Int) : Option Bytes :=
  if 0 ≤ i ∧ (0 : UInt8) ∈ copy.drop i.toNat then some ((copy.drop i.toNat).takeWhile (· ≠ 0)) else none

/-- `separator = strrchr (copy, c); if (separator) *separator = '\0';` -/
def cutAtLast (copy : Bytes) (c : UInt8) : Option Bytes := do
  match cutLast (← stringAt copy 0) c with
  | none => some copy
  | some front => write copy front.length 0

/-- The offset of a pointer into a text. -/
def offset (text pointer : Bytes) : Int := (text.length : Int) - pointer.length

/-- A reference that starts with `//`. -/
def endAtColon (copy : Bytes) : Option Bytes := do
  let text ← stringAt copy 0
  match strchr text chrColon with
  | none => some copy
  | some separator => write copy (offset text separator + 1) 0

/-- `'/' == separator[1] && '/' == separator[2]`. -/
def startsAuthority (copy : Bytes) (separator : Int) : Option Bool := do
  if (← read copy (separator + 1)) = chrSlash then some ((← read copy (separator + 2)) == chrSlash) else some false

/-- A reference that starts with `/`. -/
def endAtPath (copy : Bytes) : Option Bytes := do
  let text ← stringAt copy 0
  match strchr text chrColon with
  | none => some copy
  | some separator => do
    let colon := offset text separator
    if ← startsAuthority copy colon then
      let rest ← stringAt copy (colon + 3)
      match strchr rest chrSlash with
      | none => some copy
      | some path => write copy (colon + 3 + offset rest path) 0
    else write copy (colon + 1) 0

/-- `separator != mutable_base_uri && *tmp != '/'`. -/
def endsName (copy : Bytes) (separator : Nat) : Option Bool := do
  if separator = 0 then some false else some ((← read copy ((separator : Int) - 1)) != chrSlash)

/-- "If there's a trailing '/' on base_url, treat base_url as a directory path. Otherwise, treat it as a
file path, and chop off the filename". -/
def endAtDirectory (copy : Bytes) : Option Bytes := do
  let text ← stringAt copy 0
  if (← read copy ((text.length : Int) - 1)) = chrSlash then write copy ((text.length : Int) - 1) 0
  else
    match cutLast text chrSlash with
    | none => some copy
    | some front => do
      if ← endsName copy front.length then write copy front.length 0
      else if (strstr text (ascii ":///")).map (· + 3) = some front.length then write copy ((front.length : Int) + 1) 0
      else some copy

/-- The loop over the leading `../`. -/
def climb (copy : Bytes) : Bytes → Option (Bytes × Bytes)
  | a :: b :: c :: rest => do
    if [a, b, c] = ascii "../" then
      match cutLast (← stringAt copy 0) chrSlash with
      | some front => climb (← write copy front.length 0) rest
      | none => some (copy, rest)
    else some (copy, a :: b :: c :: rest)
  | uri => some (copy, uri)

def climbLast (copy uri : Bytes) : Option (Bytes × Bytes) := do
  if uri = ascii ".." then some (← cutAtLast copy chrSlash, []) else some (copy, uri)

/-- "Re-append the '/'". -/
def appendSlash (copy : Bytes) : Option Bytes := do
  let copy ← write copy ((← stringAt copy 0).length + 1) 0
  write copy (← stringAt copy 0).length chrSlash

/-- The base as it is edited for a reference, and what is left of the reference. -/
def editBase (copy uri : Bytes) : Option (Bytes × Bytes) := do
  if uri.take 2 = ascii "//" then some (← endAtColon copy, uri)
  else if uri.head? = some chrSlash then some (← endAtPath copy, uri)
  else if uri.head? ≠ some chrHash then
    let copy ← endAtDirectory copy
    let (copy, uri) ← climb copy (removeInternalRelativeComponents uri)
    let (copy, uri) ← climbLast copy uri
    some (← appendSlash copy, uri)
  else some (copy, uri)

/-- `make_full_uri_from_relative` in its copy of the base, whose last byte is not initialised. -/
def makeFullUriFromRelative (last : UInt8) (baseUri uri : Bytes) : Option Bytes := do
  let copy ← cutAtLast (baseUri ++ [0, last]) chrHash
  let copy ← cutAtLast copy 63
  let (copy, uri) ← editBase copy uri
  some ((← stringAt copy 0) ++ uri)

/-- "go back till you remove them all", from the end of so many bytes: the copy, and where `temp` is then. In front of
the first byte, the loop looks outside of the copy. -/
def removeAll (copy : Bytes) : Nat → Option (Bytes × Nat)
  | 0 => none
  | temp + 1 => do
    if (← read copy temp) = chrSlash then removeAll (← write copy temp 0) temp else some (copy, temp)

/-- "go back till you remove them all but one". -/
def removeAllButOne (copy : Bytes) : Nat → Option (Bytes × Nat)
  | 0 => none
  | temp + 1 => do
    if (← read copy temp) = chrSlash then removeAllButOne (← write copy (temp + 1) 0) temp else some (copy, temp + 1)

/-- `*(temp - 3) != ':' && *(temp - 2) != ':' && *(temp - 1) != ':'`. -/
def noColon (copy : Bytes) (temp : Int) : Option Bool := do
  if (← read copy (temp - 3)) = chrColon then some false
  else if (← read copy (temp - 2)) = chrColon then some false
  else some ((← read copy (temp - 1)) != chrColon)

/-- "go back till you remove them all but three". -/
def removeAllButThree (copy : Bytes) : Nat → Option Bytes
  | 0 => none
  | temp + 1 => do
    if ← noColon copy (temp + 1 : Nat) then removeAllButThree (← write copy (temp + 1 : Nat) 0) temp else some copy

/-- The copy, and where `temp` is, behind the first of the two blocks. -/
def removeTrailing (flags : SlashFlags) (uri copy : Bytes) (length : Nat) : Option (Bytes × Nat) :=
  if flags.previousCharsAreSlashesWithoutColumn then
    if isLocalScheme uri then removeAll copy length else removeAllButOne copy (length - 1)
  else some (copy, length)

def removeBehindColumn (flags : SlashFlags) (copy : Bytes) (temp : Nat) : Option Bytes := do
  if (← read copy temp) = 0 ∧ flags.previousCharsAreSlashesWithColumn then removeAllButThree copy (temp - 1) else some copy

/-- `gnome_vfs_handle_trailing_slashes` in its copy. -/
def handleTrailingSlashes (uri : Bytes) : Option Bytes := do
  let text ← stringAt (uri ++ [0]) 0
  if text.length ≤ 2 then some text
  else
    let flags := text.foldl SlashFlags.step .start
    let (copy, temp) ← removeTrailing flags uri (uri ++ [0]) text.length
    let copy ← removeBehindColumn flags copy temp
    stringAt copy 0

variable {i : Nat}

section Copies

/-- A copy of so many bytes holds a text, with some of them left behind its NUL. -/
structure Holds (size room : Nat) (copy text : Bytes) : Prop where
  size_eq : copy.length = size
  ends : ∃ rest, copy = text ++ 0 :: rest
  proper : (0 : UInt8) ∉ text
  fits : text.length + room < size

variable {size room : Nat} {copy text : Bytes}

theorem takeWhile_proper {s : Bytes} (proper : (0 : UInt8) ∉ s) (rest : Bytes) : (s ++ 0 :: rest).takeWhile (· ≠ 0) = s := by
  rw [List.takeWhile_append_of_pos]
  · rw [List.takeWhile_cons_of_neg (by decide), List.append_nil]
  · intro c inside
    exact decide_eq_true fun zero => proper (zero ▸ inside)

theorem Holds.stringAt (holds : Holds size room copy text) {i : Nat} (within : i ≤ text.length) :
    stringAt copy i = some (text.drop i) := by
  obtain ⟨rest, split⟩ := holds.ends
  have behind : copy.drop i = text.drop i ++ 0 :: rest := by rw [split, List.drop_append_of_le_length within]
  have proper : (0 : UInt8) ∉ text.drop i := fun inside => holds.proper (List.mem_of_mem_drop inside)
  rw [InPlace.stringAt, Int.toNat_natCast, behind, if_pos ⟨Int.natCast_nonneg i, by simp⟩, takeWhile_proper proper]

theorem Holds.string (holds : Holds size room copy text) : InPlace.stringAt copy 0 = some text :=
  holds.stringAt (Nat.zero_le _)

theorem Holds.read (holds : Holds size room copy text) (within : i ≤ text.length) :
    read copy i = some (byteAt text i) := by
  obtain ⟨rest, split⟩ := holds.ends
  rw [InPlace.read, if_pos (Int.natCast_nonneg i), Int.toNat_natCast, split, byteAt, List.getD_eq_getElem?_getD]
  rcases Nat.lt_or_eq_of_le within with inside | rfl
  · rw [List.getElem?_append_left inside, List.getElem?_eq_getElem inside]
    rfl
  · rw [List.getElem?_append_right (Nat.le_refl _), Nat.sub_self, List.getElem?_eq_none (Nat.le_refl _)]
    rfl

theorem Holds.write (holds : Holds size room copy text) (within : i ≤ text.length) :
    ∃ copy', write copy i 0 = some copy' ∧ Holds size room copy' (text.take i) := by
  obtain ⟨rest, split⟩ := holds.ends
  have fits := holds.fits
  have size_eq := holds.size_eq
  refine ⟨copy.set i 0, ?_, ?_, ?_, fun inside => holds.proper (List.mem_of_mem_take inside), ?_⟩
  · rw [InPlace.write, if_pos ⟨Int.natCast_nonneg i, by omega⟩, Int.toNat_natCast]
  · rw [List.length_set, size_eq]
  · refine ⟨copy.drop (i + 1), ?_⟩
    rw [List.set_eq_take_append_cons_drop, if_pos (by omega), split, List.take_append_of_le_length within]
  · rw [List.length_take]
    omega

/-- One editor: the text is made what it is to be, inside of the copy. -/
def Makes (size room : Nat) (edited : Option Bytes) (text : Bytes) : Prop := ∃ copy, edited = some copy ∧ Holds size room copy text

theorem last_cases (c : UInt8) (s : Bytes) : c ∉ s ∨ ∃ front back, s = front ++ c :: back ∧ c ∉ back := by
  by_cases inside : c ∈ s
  · obtain ⟨back, front, split, clear⟩ := List.eq_append_cons_of_mem (List.mem_reverse.mpr inside)
    refine Or.inr ⟨front.reverse, back.reverse, ?_, fun wrong => clear (List.mem_reverse.mp wrong)⟩
    rw [← List.reverse_reverse s, split]
    simp
  · exact Or.inl inside

theorem Holds.makes_take (holds : Holds size room copy text) {i : Int} {stop : Nat} (place : i = stop) (within : stop ≤ text.length) :
    Makes size room (InPlace.write copy i 0) (text.take stop) := by
  rw [place]
  exact holds.write within

theorem Holds.cutAtLast (holds : Holds size room copy text) (c : UInt8) :
    Makes size room (cutAtLast copy c) ((cutLast text c).getD text) := by
  rw [InPlace.cutAtLast, holds.string, Option.bind_eq_bind, Option.bind_some]
  rcases last_cases c text with clear | ⟨front, back, split, clear⟩
  · rw [cutLast_eq_none clear]
    exact ⟨copy, rfl, holds⟩
  · have cut : cutLast text c = some front := by rw [split, cutLast_append front clear]
    have text_take : text.take front.length = front := by rw [split, List.take_left]
    rw [cut]
    have made := @Holds.makes_take _ _ _ _ holds front.length front.length rfl (by rw [split, List.length_append]; omega)
    rwa [text_take] at made

end Copies

variable {baseUri : Bytes}

section RelativeBounds

variable {size room : Nat} {copy text : Bytes}

theorem strchr_cases (c : UInt8) (s : Bytes) :
    strchr s c = none ∨ ∃ front back, s = front ++ c :: back ∧ strchr s c = some (c :: back) := by
  cases found : strchr s c with
  | none => exact Or.inl rfl
  | some pointer =>
    obtain ⟨front, x, back, split, rfl, hit, -⟩ := (scanTo_eq_some _).mp found
    obtain rfl : x = c := eq_of_beq hit
    exact Or.inr ⟨front, back, split, rfl⟩

theorem offset_append (front pointer : Bytes) : offset (front ++ pointer) pointer = front.length := by
  rw [offset, List.length_append]
  omega

theorem Holds.read_eq (holds : Holds size room copy text) {i : Int} {k : Nat} {c : UInt8} (place : i = k)
    (within : k ≤ text.length) (there : byteAt text k = c) : InPlace.read copy i = some c := by
  rw [place, holds.read within, there]

theorem Holds.makes_scheme {front back : Bytes} (holds : Holds size room copy (front ++ chrColon :: back)) :
    Makes size room (InPlace.write copy ((front.length : Int) + 1) 0) (front ++ [chrColon]) := by
  have made := @Holds.makes_take _ _ _ _ holds ((front.length : Int) + 1) (front.length + 1) rfl
    (by rw [List.length_append, List.length_cons]; omega)
  have kept : (front ++ chrColon :: back).take (front.length + 1) = front ++ [chrColon] := by
    rw [List.take_length_add_append]
    rfl
  rwa [kept] at made

theorem Holds.endAtColon (holds : Holds size room copy text) : Makes size room (endAtColon copy) (chopAuthority text) := by
  rw [InPlace.endAtColon, holds.string, Option.bind_eq_bind, Option.bind_some, chopAuthority]
  rcases strchr_cases chrColon text with none_there | ⟨front, back, rfl, found⟩
  · rw [none_there]
    exact ⟨copy, rfl, holds⟩
  · rw [found]
    dsimp only
    rw [offset_append, strdupTo_append]
    exact holds.makes_scheme

/-- Behind the colon there are two slashes, or one of the two bytes that are read is none. -/
theorem Holds.authority {front back : Bytes} (holds : Holds size room copy (front ++ chrColon :: back)) :
    startsAuthority copy front.length = some (decide (back.take 2 = ascii "//")) := by
  have long : (front ++ chrColon :: back).length = front.length + back.length + 1 := by
    rw [List.length_append, List.length_cons]
    omega
  have first := @Holds.read_eq _ _ _ _ holds (front.length + 1) (front.length + 1) (byteAt back 0) rfl (by omega)
    (byteAt_append front (chrColon :: back) 1)
  rw [startsAuthority, first, Option.bind_eq_bind, Option.bind_some]
  cases back with
  | nil => rfl
  | cons x back =>
    have here : byteAt (x :: back) 0 = x := rfl
    rw [here]
    by_cases slash : x = chrSlash
    · have second := @Holds.read_eq _ _ _ _ holds (front.length + 2) (front.length + 2) (byteAt back 0) rfl
        (by rw [List.length_cons] at long; omega) (byteAt_append front (chrColon :: x :: back) 2)
      rw [if_pos slash, second, Option.bind_some, slash]
      cases back with
      | nil => rfl
      | cons y back =>
        have two : (chrSlash :: y :: back).take 2 = [chrSlash, y] := rfl
        have slashes : ascii "//" = [chrSlash, chrSlash] := rfl
        have next : byteAt (y :: back) 0 = y := rfl
        rw [next, two, slashes]
        simp [beq_eq_decide]
    · rw [if_neg slash]
      have other : (x :: back).take 2 ≠ ascii "//" := fun same => by
        have slashes : ascii "//" = [chrSlash, chrSlash] := rfl
        rw [slashes, List.take_succ_cons] at same
        exact slash (List.cons.inj same).1
      rw [decide_eq_false other]

theorem Holds.endAtPath (holds : Holds size room copy text) : Makes size room (endAtPath copy) (chopPath text) := by
  rw [InPlace.endAtPath, holds.string, Option.bind_eq_bind, Option.bind_some, chopPath]
  rcases strchr_cases chrColon text with none_there | ⟨front, back, rfl, found⟩
  · rw [none_there]
    exact ⟨copy, rfl, holds⟩
  · rw [found]
    dsimp only
    rw [offset_append, strdupTo_append, List.tail_cons, holds.authority, Option.bind_eq_bind, Option.bind_some]
    by_cases slashes : back.take 2 = ascii "//"
    · rw [if_pos slashes, decide_eq_true slashes, if_pos rfl]
      obtain ⟨more, rfl⟩ : ∃ more, back = ascii "//" ++ more := ⟨back.drop 2, by rw [← slashes, List.take_append_drop]⟩
      have split : front ++ chrColon :: (ascii "//" ++ more) = (front ++ ascii "://") ++ more := by
        rw [List.append_assoc]
        rfl
      have long : (front ++ ascii "://").length = front.length + 3 := by rw [List.length_append]; rfl
      rw [split] at holds ⊢
      have rest : InPlace.stringAt copy (front.length + 3) = some more := by
        have string := @Holds.stringAt _ _ _ _ holds (front.length + 3) (by rw [List.length_append]; omega)
        rwa [← long, List.drop_left, long] at string
      have same : (chrColon :: (ascii "//" ++ more)).drop 3 = more := rfl
      rw [rest, Option.bind_some, same]
      rcases strchr_cases chrSlash more with none_there | ⟨authority, path, rfl, found⟩
      · rw [none_there]
        exact ⟨copy, rfl, holds⟩
      · rw [found]
        dsimp only
        rw [offset_append, ← List.append_assoc, strdupTo_append]
        have made := @Holds.makes_take _ _ _ _ holds ((front.length : Int) + 3 + authority.length) (front ++ ascii "://" ++ authority).length
          (by rw [List.length_append, long]; omega)
          (by rw [← List.append_assoc, @List.length_append _ (front ++ ascii "://" ++ authority)]; omega)
        rwa [← List.append_assoc, List.take_left] at made
    · rw [if_neg slashes, decide_eq_false slashes, if_neg Bool.false_ne_true]
      exact holds.makes_scheme

theorem Holds.endsName {front back : Bytes} (holds : Holds size room copy (front ++ chrSlash :: back)) :
    endsName copy front.length = some (decide (front ≠ [] ∧ front.getLast? ≠ some chrSlash)) := by
  rw [InPlace.endsName]
  rcases List.eq_nil_or_concat' front with rfl | ⟨before, c, rfl⟩
  · rfl
  · have tmp := @Holds.read_eq _ _ _ _ holds (((before ++ [c]).length : Int) - 1) before.length c
      (by rw [List.length_append, List.length_singleton]; omega)
      (by rw [List.length_append, List.length_append]; omega)
      (by rw [List.append_assoc]; exact byteAt_append before ([c] ++ chrSlash :: back) 0)
    rw [if_neg (by rw [List.length_append, List.length_singleton]; omega), tmp, List.getLast?_concat]
    by_cases slash : c = chrSlash
    · simp [slash]
    · simp [slash]

/-- The base as a directory, in a copy of a text that is not empty. -/
theorem Holds.endAtDirectory (holds : Holds size room copy text) (some_text : text ≠ []) :
    Makes size room (endAtDirectory copy) (chopFileName text) := by
  obtain ⟨init, last, rfl⟩ : ∃ init last, text = init ++ [last] :=
    ⟨text.dropLast, text.getLast some_text, (List.dropLast_append_getLast some_text).symm⟩
  have long : (init ++ [last]).length = init.length + 1 := by rw [List.length_append]; rfl
  have ends : InPlace.read copy (((init ++ [last]).length : Int) - 1) = some last :=
    @Holds.read_eq _ _ _ _ holds _ init.length last (by omega) (by omega) (byteAt_append init [last] 0)
  rw [InPlace.endAtDirectory, holds.string, Option.bind_eq_bind, Option.bind_some, chopFileName, ends, Option.bind_eq_bind, Option.bind_some,
    List.getLast?_concat]
  by_cases slash : last = chrSlash
  · rw [if_pos slash, if_pos (congrArg some slash), List.dropLast_concat]
    have made := @Holds.makes_take _ _ _ _ holds (((init ++ [last]).length : Int) - 1) init.length (by omega) (by omega)
    rwa [List.take_left] at made
  · rw [if_neg slash, if_neg fun same => slash (Option.some.inj same)]
    rcases last_cases chrSlash (init ++ [last]) with clear | ⟨front, back, split, clear⟩
    · rw [cutLast_eq_none clear]
      exact ⟨copy, rfl, holds⟩
    · rw [split] at holds ⊢
      rw [cutLast_append front clear]
      dsimp only
      rw [holds.endsName, Option.bind_eq_bind, Option.bind_some]
      by_cases named : front ≠ [] ∧ front.getLast? ≠ some chrSlash
      · rw [if_pos named, if_pos (decide_eq_true named)]
        have made := @Holds.makes_take _ _ _ _ holds front.length front.length rfl (by rw [List.length_append]; omega)
        rwa [List.take_left] at made
      · rw [if_neg named, decide_eq_false named, if_neg Bool.false_ne_true]
        split
        · exact holds.makes_take rfl (by rw [List.length_append, List.length_cons]; omega)
        · exact ⟨copy, rfl, holds⟩

theorem Holds.climb (uri : Bytes) : ∀ {copy text : Bytes}, Holds size room copy text → ∃ copy',
    climb copy uri = some (copy', (chopParents text uri).2) ∧ Holds size room copy' (chopParents text uri).1 := by
  fun_induction leadingParents uri with
  | case1 a b c rest parent ih =>
    intro copy text holds
    rw [InPlace.climb, chopParents, if_pos parent, if_pos parent, holds.string, Option.bind_eq_bind, Option.bind_some]
    rcases last_cases chrSlash text with clear | ⟨front, back, rfl, clear⟩
    · rw [cutLast_eq_none clear]
      exact ⟨copy, rfl, holds⟩
    · rw [cutLast_append front clear]
      obtain ⟨shorter, written, holds⟩ := @Holds.makes_take _ _ _ _ holds front.length front.length rfl (by rw [List.length_append]; omega)
      rw [List.take_left] at holds
      dsimp only
      rw [written, Option.bind_some]
      exact ih holds
  | case2 a b c rest other =>
    intro copy text holds
    rw [InPlace.climb, chopParents, if_neg other, if_neg other]
    exact ⟨copy, rfl, holds⟩
  | case3 uri short =>
    intro copy text holds
    rw [InPlace.climb, chopParents]
    · exact ⟨copy, rfl, holds⟩
    all_goals exact short

theorem Holds.climbLast (holds : Holds size room copy text) (uri : Bytes) : ∃ copy',
    climbLast copy uri = some (copy', (chopLastParent text uri).2) ∧ Holds size room copy' (chopLastParent text uri).1 := by
  rw [InPlace.climbLast, chopLastParent]
  split
  · obtain ⟨copy', made, holds⟩ := holds.cutAtLast chrSlash
    rw [made]
    exact ⟨copy', rfl, holds⟩
  · exact ⟨copy, rfl, holds⟩

/-- The slash and its NUL are in the byte that was asked for beside the text. -/
theorem Holds.appendSlash (holds : Holds size 1 copy text) : Makes size 0 (appendSlash copy) (text ++ [chrSlash]) := by
  obtain ⟨rest, split⟩ := holds.ends
  have size_eq := holds.size_eq
  have fits := holds.fits
  obtain ⟨c, more, rfl⟩ : ∃ c more, rest = c :: more := by
    refine List.exists_cons_of_ne_nil fun empty => ?_
    rw [split, empty, List.length_append, List.length_singleton] at size_eq
    omega
  have first : InPlace.write copy ((text.length : Int) + 1) 0 = some (text ++ 0 :: 0 :: more) := by
    rw [InPlace.write, if_pos ⟨by omega, by omega⟩, split]
    refine congrArg some ?_
    rw [List.set_append_right _ _ (by omega)]
    have place : ((text.length : Int) + 1).toNat - text.length = 1 := by omega
    rw [place]
    rfl
  have length : (text ++ 0 :: 0 :: more).length = size := by
    rw [← size_eq, split]
    simp
  have again : Holds size 1 (text ++ 0 :: 0 :: more) text := ⟨length, ⟨0 :: more, rfl⟩, holds.proper, fits⟩
  rw [InPlace.appendSlash, holds.string, Option.bind_eq_bind, Option.bind_some, first, Option.bind_some, again.string,
    Option.bind_some]
  refine ⟨text ++ chrSlash :: 0 :: more, ?_, ?_, ⟨more, by simp⟩, ?_, ?_⟩
  · rw [InPlace.write, if_pos ⟨by omega, by omega⟩, Int.toNat_natCast, List.set_append_right _ _ (Nat.le_refl _), Nat.sub_self]
    rfl
  · rw [← length]
    simp
  · intro inside
    rcases List.mem_append.mp inside with before | here
    · exact holds.proper before
    · exact absurd (List.mem_singleton.mp here) (by decide)
  · rw [List.length_append, List.length_singleton]
    omega

theorem Holds.initial (last : UInt8) {base : Bytes} (proper : (0 : UInt8) ∉ base) :
    Holds (base.length + 2) 1 (base ++ [0, last]) base :=
  ⟨by rw [List.length_append]; rfl, ⟨[last], rfl⟩, proper, Nat.lt_succ_self _⟩

/-- The references that are put behind the last slash of the base. -/
def ReplacesName (uri : Bytes) : Prop := uri.head? ≠ some chrSlash ∧ uri.head? ≠ some chrHash

theorem takes_authority {uri : Bytes} (other : uri.head? ≠ some chrSlash) : uri.take 2 ≠ ascii "//" := by
  intro same
  cases uri with
  | nil => exact absurd same (by decide)
  | cons c rest =>
    have slashes : ascii "//" = [chrSlash, chrSlash] := rfl
    rw [slashes, List.take_succ_cons] at same
    exact other (congrArg some (List.cons.inj same).1)

theorem Holds.mono (holds : Holds size room copy text) : Holds size 0 copy text :=
  ⟨holds.size_eq, holds.ends, holds.proper, Nat.lt_of_le_of_lt (Nat.le_add_right _ _) holds.fits⟩

/-- The edited base and the rest of the reference make up the text. -/
theorem Holds.editBase (holds : Holds size 1 copy (chopQuery baseUri)) {uri : Bytes}
    (fits : ¬ (chopQuery baseUri = [] ∧ ReplacesName uri)) :
    ∃ edited rest front, editBase copy uri = some (edited, rest) ∧
      Holds size 0 edited front ∧ front ++ rest = GnomeVfs.makeFullUriFromRelative baseUri uri := by
  rw [InPlace.editBase, GnomeVfs.makeFullUriFromRelative]
  dsimp only
  by_cases authority : uri.take 2 = ascii "//"
  · rw [if_pos authority, if_pos authority]
    obtain ⟨copy, made, holds⟩ := holds.endAtColon
    rw [made]
    exact ⟨_, _, _, rfl, holds.mono, rfl⟩
  rw [if_neg authority, if_neg authority]
  by_cases path : uri.head? = some chrSlash
  · rw [if_pos path, if_pos path]
    obtain ⟨copy, made, holds⟩ := holds.endAtPath
    rw [made]
    exact ⟨_, _, _, rfl, holds.mono, rfl⟩
  rw [if_neg path, if_neg path]
  by_cases name : uri.head? ≠ some chrHash
  · rw [if_pos name, if_pos name]
    obtain ⟨copy, made, holds⟩ := holds.endAtDirectory fun empty => fits ⟨empty, path, name⟩
    obtain ⟨copy, climbed, holds⟩ := holds.climb (removeInternalRelativeComponents uri)
    obtain ⟨copy, climbed', holds⟩ := holds.climbLast (chopParents (chopFileName (chopQuery baseUri)) (removeInternalRelativeComponents uri)).2
    obtain ⟨copy, slashed, holds⟩ := holds.appendSlash
    rw [made, Option.bind_eq_bind, Option.bind_some, climbed, Option.bind_eq_bind, Option.bind_some]
    dsimp only
    rw [climbed', Option.bind_some]
    dsimp only
    rw [slashed]
    refine ⟨_, _, _, rfl, holds, ?_⟩
    rw [List.append_assoc]
    rfl
  · rw [if_neg name, if_neg name]
    exact ⟨_, _, _, rfl, holds.mono, rfl⟩

/-- The whole of it stays inside of the copy and gives the same text, unless a name is to be replaced in an empty base. -/
theorem makeFullUriFromRelative_some (last : UInt8) {baseUri uri : Bytes} (proper : (0 : UInt8) ∉ baseUri)
    (fits : ¬ (chopQuery baseUri = [] ∧ ReplacesName uri)) :
    makeFullUriFromRelative last baseUri uri = some (GnomeVfs.makeFullUriFromRelative baseUri uri) := by
  obtain ⟨copy, cut, holds⟩ := (Holds.initial last proper).cutAtLast chrHash
  obtain ⟨copy, cut', holds⟩ := holds.cutAtLast 63
  obtain ⟨copy, rest, front, edited, holds, same⟩ := Holds.editBase holds fits
  rw [InPlace.makeFullUriFromRelative, cut, Option.bind_eq_bind, Option.bind_some, cut', Option.bind_some, edited, Option.bind_eq_bind, Option.bind_some]
  dsimp only
  rw [holds.string, ← same]
  rfl

theorem makeFullUriFromRelative_none (last : UInt8) {baseUri uri : Bytes} (proper : (0 : UInt8) ∉ baseUri)
    (empty : chopQuery baseUri = []) (name : ReplacesName uri) : makeFullUriFromRelative last baseUri uri = none := by
  obtain ⟨copy, cut, holds⟩ := (Holds.initial last proper).cutAtLast chrHash
  obtain ⟨copy, cut', holds⟩ := holds.cutAtLast 63
  have holds : Holds (baseUri.length + 2) 1 copy (chopQuery baseUri) := holds
  rw [empty] at holds
  have outside : endAtDirectory copy = none := by
    rw [endAtDirectory, holds.string]
    rfl
  rw [InPlace.makeFullUriFromRelative, cut, Option.bind_eq_bind, Option.bind_some, cut', Option.bind_some, InPlace.editBase,
    if_neg (takes_authority name.1), if_neg name.1, if_pos name.2, outside]
  rfl

end RelativeBounds

variable {n m : Nat}

section TrailingBounds

variable {size : Nat} {copy front : Bytes} {c : UInt8}

theorem byteAt_replicate (within : i < n) : byteAt (List.replicate n chrSlash) i = chrSlash := by
  rw [byteAt, List.getD_eq_getElem?_getD, List.getElem?_replicate, if_pos within]
  rfl

theorem take_slashes (n : Nat) : (front ++ c :: List.replicate (n + 1) chrSlash).take (front.length + (n + 1)) =
    front ++ c :: List.replicate n chrSlash := by
  rw [List.take_length_add_append, List.take_succ_cons, List.take_replicate, Nat.min_eq_left (Nat.le_succ n)]

theorem removeAll_slashes (other : c ≠ chrSlash) (n : Nat) : ∀ {copy : Bytes}, Holds size 0 copy (front ++ c :: List.replicate n chrSlash) →
    ∃ copy', removeAll copy (front.length + (n + 1)) = some (copy', front.length) ∧ Holds size 0 copy' (front ++ [c]) := by
  induction n with
  | zero =>
    intro copy holds
    have here := @Holds.read_eq _ _ _ _ holds front.length front.length c rfl (by rw [List.length_append]; omega) (byteAt_append front _ 0)
    refine ⟨copy, ?_, holds⟩
    rw [Nat.zero_add, removeAll, here, Option.bind_eq_bind, Option.bind_some, if_neg other]
  | succ n ih =>
    intro copy holds
    have long : (front ++ c :: List.replicate (n + 1) chrSlash).length = front.length + (n + 2) := by
      rw [List.length_append, List.length_cons, List.length_replicate]
    have here := @Holds.read_eq _ _ _ _ holds (front.length + (n + 1) : Nat) (front.length + (n + 1)) chrSlash rfl (by omega)
      ((byteAt_append front _ (n + 1)).trans (byteAt_replicate (Nat.lt_succ_self n)))
    obtain ⟨shorter, written, holds⟩ := @Holds.makes_take _ _ _ _ holds (front.length + (n + 1) : Nat) (front.length + (n + 1)) rfl (by omega)
    rw [take_slashes] at holds
    obtain ⟨copy', removed, holds⟩ := ih holds
    refine ⟨copy', ?_, holds⟩
    rw [← Nat.add_assoc, removeAll, here, Option.bind_eq_bind, Option.bind_some, if_pos rfl, written]
    exact removed

theorem removeAllButOne_slashes (other : c ≠ chrSlash) (n : Nat) : ∀ {copy : Bytes},
    Holds size 0 copy (front ++ c :: List.replicate (n + 1) chrSlash) →
    ∃ copy', removeAllButOne copy (front.length + (n + 1)) = some (copy', front.length + 1) ∧
      Holds size 0 copy' (front ++ c :: [chrSlash]) := by
  induction n with
  | zero =>
    intro copy holds
    have here := @Holds.read_eq _ _ _ _ holds front.length front.length c rfl (by rw [List.length_append]; omega) (byteAt_append front _ 0)
    refine ⟨copy, ?_, holds⟩
    rw [Nat.zero_add, removeAllButOne, here, Option.bind_eq_bind, Option.bind_some, if_neg other]
  | succ n ih =>
    intro copy holds
    have long : (front ++ c :: List.replicate (n + 1 + 1) chrSlash).length = front.length + (n + 3) := by
      rw [List.length_append, List.length_cons, List.length_replicate]
    have here := @Holds.read_eq _ _ _ _ holds (front.length + (n + 1) : Nat) (front.length + (n + 1)) chrSlash rfl (by omega)
      ((byteAt_append front _ (n + 1)).trans (byteAt_replicate (by omega)))
    obtain ⟨shorter, written, holds⟩ := @Holds.makes_take _ _ _ _ holds (front.length + (n + 2) : Nat) (front.length + (n + 2)) rfl (by omega)
    rw [take_slashes (n + 1)] at holds
    obtain ⟨copy', removed, holds⟩ := ih holds
    refine ⟨copy', ?_, holds⟩
    rw [← Nat.add_assoc, removeAllButOne, here, Option.bind_eq_bind, Option.bind_some, if_pos rfl]
    have place : ((front.length + (n + 1) : Nat) : Int) + 1 = (front.length + (n + 2) : Nat) := by omega
    rw [place, written]
    exact removed

theorem read_outside {i : Int} (outside : i < 0) : read copy i = none := by
  rw [read, if_neg (by omega)]

theorem length_column (m : Nat) : (front ++ chrColon :: List.replicate m chrSlash).length = front.length + (m + 1) := by
  rw [List.length_append, List.length_cons, List.length_replicate]

theorem noColon_far {m k : Nat} (holds : Holds size 0 copy (front ++ chrColon :: List.replicate m chrSlash)) (within : k + 3 < m) :
    noColon copy (front.length + (k + 4) : Nat) = some true := by
  have slash : ∀ j, j ≤ k + 2 → byteAt (front ++ chrColon :: List.replicate m chrSlash) (front.length + (j + 1)) = chrSlash := fun j le =>
    (byteAt_append front _ (j + 1)).trans (byteAt_replicate (by omega))
  have long := @length_column front m
  have first := @Holds.read_eq _ _ _ _ holds ((front.length + (k + 4) : Nat) - 3) (front.length + (k + 1)) chrSlash (by omega) (by omega)
    (slash k (by omega))
  have second := @Holds.read_eq _ _ _ _ holds ((front.length + (k + 4) : Nat) - 2) (front.length + (k + 1 + 1)) chrSlash (by omega) (by omega)
    (slash (k + 1) (by omega))
  have third := @Holds.read_eq _ _ _ _ holds ((front.length + (k + 4) : Nat) - 1) (front.length + (k + 2 + 1)) chrSlash (by omega) (by omega)
    (slash (k + 2) (by omega))
  rw [noColon, first, second, third]
  rfl

/-- Behind up to three slashes the colon is seen, if there are three bytes to be looked at. -/
theorem noColon_near {m k : Nat} (holds : Holds size 0 copy (front ++ chrColon :: List.replicate m chrSlash))
    (some_slash : 0 < k) (near : k ≤ 3) (within : k ≤ m) (inside : 3 ≤ front.length + k) :
    noColon copy (front.length + k : Nat) = some false := by
  have long := @length_column front m
  have colon : byteAt (front ++ chrColon :: List.replicate m chrSlash) front.length = chrColon := byteAt_append front _ 0
  have first := @Holds.read_eq _ _ _ _ holds ((front.length + k : Nat) - 3) (front.length + k - 3) _ (by omega) (by omega) rfl
  have second := @Holds.read_eq _ _ _ _ holds ((front.length + k : Nat) - 2) (front.length + k - 2) _ (by omega) (by omega) rfl
  have third := @Holds.read_eq _ _ _ _ holds ((front.length + k : Nat) - 1) (front.length + k - 1) _ (by omega) (by omega) rfl
  rw [noColon, first, Option.bind_eq_bind, Option.bind_some, second, Option.bind_some, third, Option.bind_some]
  by_cases early : byteAt (front ++ chrColon :: List.replicate m chrSlash) (front.length + k - 3) = chrColon
  · rw [if_pos early]
  rw [if_neg early]
  by_cases next : byteAt (front ++ chrColon :: List.replicate m chrSlash) (front.length + k - 2) = chrColon
  · rw [if_pos next]
  rw [if_neg next]
  obtain rfl : k = 1 := by
    by_contra other
    have two_or_three : front.length + k - 2 = front.length ∨ front.length + k - 3 = front.length := by omega
    rcases two_or_three with two | three
    · exact next (by rw [two, colon])
    · exact early (by rw [three, colon])
  rw [Nat.add_sub_cancel, colon]
  rfl

/-- The bytes in front of the text are looked at. -/
theorem noColon_outside {temp : Nat} (outside : temp < 3) : noColon copy temp = none := by
  rw [noColon, read_outside (by omega)]
  rfl

theorem removeAllButThree_near (holds : Holds size 0 copy (front ++ chrColon :: List.replicate m chrSlash))
    (some_slash : 0 < m) (near : m ≤ 3) :
    removeAllButThree copy (front.length + m) = if 3 ≤ front.length + m then some copy else none := by
  obtain ⟨k, rfl⟩ : ∃ k, m = k + 1 := Nat.exists_eq_succ_of_ne_zero (Nat.pos_iff_ne_zero.mp some_slash)
  rw [← Nat.add_assoc, removeAllButThree, Nat.add_assoc]
  split
  · rename_i inside
    rw [noColon_near holds some_slash near (Nat.le_refl _) inside]
    rfl
  · rename_i outside
    rw [noColon_outside (Nat.lt_of_not_ge outside)]
    rfl

theorem removeAllButThree_far (n : Nat) : ∀ {copy : Bytes}, Holds size 0 copy (front ++ chrColon :: List.replicate (n + 3) chrSlash) →
    ∃ copy', removeAllButThree copy (front.length + (n + 3)) = some copy' ∧
      Holds size 0 copy' (front ++ chrColon :: List.replicate 3 chrSlash) := by
  induction n with
  | zero =>
    intro copy holds
    refine ⟨copy, ?_, holds⟩
    rw [removeAllButThree_near holds (by omega) (Nat.le_refl _), if_pos (by omega)]
  | succ n ih =>
    intro copy holds
    have long := @length_column front (n + 1 + 3)
    obtain ⟨shorter, written, holds'⟩ := @Holds.makes_take _ _ _ _ holds (front.length + (n + 4) : Nat) (front.length + (n + 3 + 1)) rfl (by omega)
    rw [Nat.add_right_comm, take_slashes (n + 3)] at holds'
    obtain ⟨copy', removed, holds'⟩ := ih holds'
    refine ⟨copy', ?_, holds'⟩
    rw [Nat.add_right_comm n 1 3, ← Nat.add_assoc, removeAllButThree, Nat.add_assoc, noColon_far holds (by omega), Option.bind_eq_bind,
      Option.bind_some, if_pos rfl, written]
    exact removed

theorem removeAll_none (n : Nat) : ∀ {copy : Bytes}, Holds size 0 copy (List.replicate n chrSlash) → removeAll copy n = none := by
  induction n with
  | zero =>
    intro copy _
    rfl
  | succ n ih =>
    intro copy holds
    have long : (List.replicate (n + 1) chrSlash).length = n + 1 := List.length_replicate
    have here := @Holds.read_eq _ _ _ _ holds n n chrSlash rfl (by omega) (byteAt_replicate (Nat.lt_succ_self n))
    obtain ⟨shorter, written, holds⟩ := @Holds.makes_take _ _ _ _ holds n n rfl (by omega)
    rw [List.take_replicate, Nat.min_eq_left (Nat.le_succ n)] at holds
    rw [removeAll, here, Option.bind_eq_bind, Option.bind_some, if_pos rfl, written]
    exact ih holds

theorem removeAllButOne_none (n : Nat) : ∀ {copy : Bytes}, Holds size 0 copy (List.replicate (n + 1) chrSlash) →
    removeAllButOne copy n = none := by
  induction n with
  | zero =>
    intro copy _
    rfl
  | succ n ih =>
    intro copy holds
    have long : (List.replicate (n + 1 + 1) chrSlash).length = n + 2 := List.length_replicate
    have here := @Holds.read_eq _ _ _ _ holds n n chrSlash rfl (by omega) (byteAt_replicate (by omega))
    obtain ⟨shorter, written, holds⟩ := @Holds.makes_take _ _ _ _ holds ((n : Int) + 1) (n + 1) rfl (by omega)
    rw [List.take_replicate, Nat.min_eq_left (Nat.le_succ _)] at holds
    rw [removeAllButOne, here, Option.bind_eq_bind, Option.bind_some, if_pos rfl, written]
    exact ih holds

/-- The texts for which the byte in front of the copy is looked at. -/
def Escapes (uri : Bytes) : Prop :=
  3 ≤ uri.length ∧ (∀ c ∈ uri, c = chrSlash) ∨ uri.length = 3 ∧ (uri.tail = ascii ":/" ∨ uri = ascii "://")

theorem Holds.copied {uri : Bytes} (proper : (0 : UInt8) ∉ uri) : Holds (uri.length + 1) 0 (uri ++ [0]) uri :=
  ⟨by rw [List.length_append]; rfl, ⟨[], rfl⟩, proper, Nat.lt_succ_self _⟩

variable {before : UInt8} {uri : Bytes}

theorem handleTrailingSlashes_eq (proper : (0 : UInt8) ∉ uri) (long : 2 < uri.length) {flags : SlashFlags}
    (end_flags : uri.foldl SlashFlags.step .start = flags) : handleTrailingSlashes uri =
      (removeTrailing flags uri (uri ++ [0]) uri.length).bind fun edited =>
        (removeBehindColumn flags edited.1 edited.2).bind fun copy => stringAt copy 0 := by
  rw [handleTrailingSlashes, (Holds.copied proper).string, Option.bind_eq_bind, Option.bind_some, if_neg (by omega), end_flags]
  rfl

theorem Holds.removeBehindColumn {text : Bytes} (holds : Holds size 0 copy text) {temp : Nat} (within : temp ≤ text.length) (first second : Bool) :
    removeBehindColumn ⟨first, second, false⟩ copy temp = some copy := by
  rw [InPlace.removeBehindColumn, holds.read within, Option.bind_eq_bind, Option.bind_some, if_neg fun both => Bool.false_ne_true both.2]

theorem trailing_other (other : c ≠ chrSlash) (proper : (0 : UInt8) ∉ front ++ [c]) (long : 2 < (front ++ [c]).length) :
    handleTrailingSlashes (front ++ [c]) = some (front ++ [c]) ∧
      GnomeVfs.handleTrailingSlashes before (front ++ [c]) = some (front ++ [c]) := by
  have holds := Holds.copied proper
  have flags : (front ++ [c]).foldl SlashFlags.step .start = ⟨c = chrColon, false, false⟩ := by
    rw [List.foldl_append, List.foldl_cons, List.foldl_nil, step_other other]
  constructor
  · rw [handleTrailingSlashes_eq proper long flags, removeTrailing, if_neg Bool.false_ne_true, Option.bind_some]
    dsimp only
    rw [holds.removeBehindColumn (Nat.le_refl _), Option.bind_some, holds.string]
  · rw [GnomeVfs.handleTrailingSlashes, if_neg (by omega), flags]
    rfl

theorem reverse_slashes (n : Nat) :
    (front ++ c :: List.replicate n chrSlash).reverse = List.replicate n chrSlash ++ c :: front.reverse := by
  rw [List.reverse_append, List.reverse_cons, List.reverse_replicate, List.append_assoc]
  rfl

/-- Slashes that are not behind a colon are taken off, all of them or all but one. -/
theorem trailing_slashes (other : c ≠ chrSlash) (no_colon : c ≠ chrColon)
    (proper : (0 : UInt8) ∉ front ++ c :: List.replicate (n + 1) chrSlash)
    (long : 2 < (front ++ c :: List.replicate (n + 1) chrSlash).length) :
    ∃ text, handleTrailingSlashes (front ++ c :: List.replicate (n + 1) chrSlash) = some text ∧
      GnomeVfs.handleTrailingSlashes before (front ++ c :: List.replicate (n + 1) chrSlash) = some text := by
  have holds := Holds.copied proper
  have flags := flags_slashes front other n
  rw [decide_eq_false no_colon, decide_eq_true no_colon] at flags
  have length : (front ++ c :: List.replicate (n + 1) chrSlash).length = front.length + (n + 2) := by
    rw [List.length_append, List.length_cons, List.length_replicate]
  have first := handleTrailingSlashes_eq proper long flags
  have second : GnomeVfs.handleTrailingSlashes before (front ++ c :: List.replicate (n + 1) chrSlash) = _ := if_neg (by omega)
  rw [removeTrailing, if_pos rfl, length] at first
  dsimp only at second
  rw [flags, if_pos rfl, reverse_slashes] at second
  cases scheme : isLocalScheme (front ++ c :: List.replicate (n + 1) chrSlash) with
  | true =>
    obtain ⟨copy, removed, holds⟩ := removeAll_slashes other (n + 1) holds
    refine ⟨front ++ [c], ?_, ?_⟩
    · rw [first, scheme, if_pos rfl, removed, Option.bind_some]
      dsimp only
      rw [holds.removeBehindColumn (by rw [List.length_append]; omega), Option.bind_some, holds.string]
    · rw [second, scheme, if_pos rfl, removeSlashes_slashes other]
      simp
  | false =>
    obtain ⟨copy, removed, holds⟩ := removeAllButOne_slashes other n holds
    refine ⟨front ++ c :: [chrSlash], ?_, ?_⟩
    · rw [first, scheme, if_neg Bool.false_ne_true]
      have place : front.length + (n + 2) - 1 = front.length + (n + 1) := by omega
      rw [place, removed, Option.bind_some]
      dsimp only
      rw [holds.removeBehindColumn (by rw [List.length_append]; exact Nat.add_le_add_left (Nat.succ_le_succ (Nat.zero_le _)) _), Option.bind_some, holds.string]
    · rw [second, scheme, if_neg Bool.false_ne_true, removeSlashesButOne_slashes other]
      simp

theorem trailing_column_eq (proper : (0 : UInt8) ∉ front ++ chrColon :: List.replicate (n + 1) chrSlash)
    (long : 2 < (front ++ chrColon :: List.replicate (n + 1) chrSlash).length) :
    handleTrailingSlashes (front ++ chrColon :: List.replicate (n + 1) chrSlash) =
      (removeAllButThree (front ++ chrColon :: List.replicate (n + 1) chrSlash ++ [0]) (front.length + (n + 1))).bind fun copy =>
        stringAt copy 0 := by
  have holds := Holds.copied proper
  have flags := flags_slashes front (by decide : chrColon ≠ chrSlash) n
  have last := holds.read (Nat.le_refl _)
  have over_text : byteAt (front ++ chrColon :: List.replicate (n + 1) chrSlash) (front ++ chrColon :: List.replicate (n + 1) chrSlash).length = 0 := by
    rw [byteAt, List.getD_eq_getElem?_getD, List.getElem?_eq_none (Nat.le_refl _)]
    rfl
  rw [handleTrailingSlashes_eq proper long flags, removeTrailing, if_neg (by decide), Option.bind_some]
  dsimp only
  rw [removeBehindColumn, last, over_text, Option.bind_eq_bind, Option.bind_some, if_pos ⟨rfl, rfl⟩, length_column]
  rfl

/-- Of slashes behind a colon three are left, where there are four bytes or more. -/
theorem trailing_column (proper : (0 : UInt8) ∉ front ++ chrColon :: List.replicate (n + 1) chrSlash)
    (long : 3 < (front ++ chrColon :: List.replicate (n + 1) chrSlash).length) :
    ∃ text, handleTrailingSlashes (front ++ chrColon :: List.replicate (n + 1) chrSlash) = some text ∧
      GnomeVfs.handleTrailingSlashes before (front ++ chrColon :: List.replicate (n + 1) chrSlash) = some text := by
  have holds := Holds.copied proper
  have length := @length_column front (n + 1)
  refine ⟨front ++ chrColon :: List.replicate (min (n + 1) 3) chrSlash, ?_, ?_⟩
  · rw [trailing_column_eq proper (by omega)]
    rcases Nat.lt_or_ge n 2 with near | far
    · rw [removeAllButThree_near holds (Nat.succ_pos n) (by omega), if_pos (by omega), Option.bind_some, holds.string,
        Nat.min_eq_left (by omega)]
    · obtain ⟨m, rfl⟩ : ∃ m, n = m + 2 := ⟨n - 2, by omega⟩
      obtain ⟨copy, removed, holds⟩ := removeAllButThree_far m holds
      rw [removed, Option.bind_some, holds.string, Nat.min_eq_right (by omega)]
  · have second : GnomeVfs.handleTrailingSlashes before (front ++ chrColon :: List.replicate (n + 1) chrSlash) = _ := if_neg (by omega)
    dsimp only at second
    rw [second, flags_slashes front (by decide : chrColon ≠ chrSlash) n, if_neg (by decide), if_pos (by decide), reverse_slashes,
      removeSlashesButThree_slashes]
    simp

theorem trailing_column_none {n : Nat}
    (proper : (0 : UInt8) ∉ front ++ chrColon :: List.replicate (n + 1) chrSlash)
    (three : (front ++ chrColon :: List.replicate (n + 1) chrSlash).length = 3) :
    handleTrailingSlashes (front ++ chrColon :: List.replicate (n + 1) chrSlash) = none := by
  have length := @length_column front (n + 1)
  rw [trailing_column_eq proper (by omega), removeAllButThree_near (Holds.copied proper) (Nat.succ_pos n) (by omega), if_neg (by omega)]
  rfl

theorem all_slashes_none (long : 2 < n + 1) : handleTrailingSlashes (List.replicate (n + 1) chrSlash) = none := by
  have proper : (0 : UInt8) ∉ List.replicate (n + 1) chrSlash := fun inside => absurd (List.eq_of_mem_replicate inside) (by decide)
  have holds := Holds.copied proper
  rw [handleTrailingSlashes_eq proper (by rw [List.length_replicate]; exact long) (flags_all_slashes n), removeTrailing, if_pos rfl]
  split
  · rw [List.length_replicate, removeAll_none (n + 1) holds]
    rfl
  · rw [List.length_replicate, Nat.add_sub_cancel, removeAllButOne_none n holds]
    rfl

theorem trailing_cases (uri : Bytes) : (∃ front c, uri = front ++ [c] ∧ c ≠ chrSlash) ∨ (∃ n, uri = List.replicate n chrSlash) ∨
    ∃ front c n, uri = front ++ c :: List.replicate (n + 1) chrSlash ∧ c ≠ chrSlash := by
  obtain ⟨core, n, rfl, last⟩ := exists_core uri
  rcases List.eq_nil_or_concat' core with rfl | ⟨front, c, rfl⟩
  · exact Or.inr (Or.inl ⟨n, rfl⟩)
  · have other : c ≠ chrSlash := fun same => last (by rw [List.getLast?_concat, same])
    cases n with
    | zero => exact Or.inl ⟨front, c, List.append_nil _, other⟩
    | succ n => exact Or.inr (Or.inr ⟨front, c, n, List.append_assoc _ _ _, other⟩)

/-- Inside of the copy, the text is the one that was modelled without it. -/
theorem handleTrailingSlashes_some (before : UInt8) (proper : (0 : UInt8) ∉ uri) (fits : ¬ Escapes uri) :
    ∃ text, handleTrailingSlashes uri = some text ∧ GnomeVfs.handleTrailingSlashes before uri = some text := by
  rcases Nat.lt_or_ge 2 uri.length with long | short
  · rcases trailing_cases uri with ⟨front, c, rfl, other⟩ | ⟨n, rfl⟩ | ⟨front, c, n, rfl, other⟩
    · exact ⟨_, trailing_other other proper long⟩
    · exact absurd (Or.inl ⟨long, fun c inside => List.eq_of_mem_replicate inside⟩) fits
    · by_cases colon : c = chrColon
      · subst colon
        refine trailing_column proper (Nat.lt_of_le_of_ne long fun three => fits (Or.inr ⟨three.symm, ?_⟩))
        have length := @length_column front (n + 1)
        rcases front with _ | ⟨x, front⟩
        · obtain rfl : n = 1 := by
            rw [List.length_nil] at length
            omega
          exact Or.inr rfl
        · rw [List.length_cons] at length
          obtain rfl : n = 0 := by omega
          obtain rfl : front = [] := List.length_eq_zero_iff.mp (by omega)
          exact Or.inl rfl
      · exact trailing_slashes other colon proper long
  · have same : GnomeVfs.handleTrailingSlashes before uri = some uri := if_pos short
    refine ⟨uri, ?_, same⟩
    rw [handleTrailingSlashes, (Holds.copied proper).string, Option.bind_eq_bind, Option.bind_some, if_pos short]

theorem handleTrailingSlashes_none (proper : (0 : UInt8) ∉ uri) (escapes : Escapes uri) : handleTrailingSlashes uri = none := by
  rcases escapes with ⟨long, all⟩ | ⟨three, ends⟩
  · obtain ⟨n, rfl⟩ : ∃ n, uri = List.replicate (n + 1) chrSlash :=
      ⟨uri.length - 1, List.eq_replicate_iff.mpr ⟨by omega, all⟩⟩
    rw [List.length_replicate] at long
    exact all_slashes_none long
  · rcases ends with behind | rfl
    · obtain ⟨x, rfl⟩ : ∃ x, uri = [x] ++ chrColon :: List.replicate (0 + 1) chrSlash := by
        cases uri with
        | nil => cases three
        | cons x rest => exact ⟨x, congrArg (x :: ·) behind⟩
      exact trailing_column_none proper three
    · exact @trailing_column_none [] 1 proper rfl

end TrailingBounds

/-- The two editors stay inside of their copies but for a name that replaces nothing in an empty base, for more
than two slashes and nothing else, and for three bytes with slashes behind a colon at the end. -/
theorem editors_inside_iff (last : UInt8) {baseUri uri : Bytes} (reference : Bytes)
    (proper : (0 : UInt8) ∉ baseUri) (proper' : (0 : UInt8) ∉ uri) :
    ((makeFullUriFromRelative last baseUri reference).isSome ↔ ¬ (chopQuery baseUri = [] ∧ ReplacesName reference)) ∧
      ((handleTrailingSlashes uri).isSome ↔ ¬ Escapes uri) := by
  constructor
  · by_cases outside : chopQuery baseUri = [] ∧ ReplacesName reference
    · rw [makeFullUriFromRelative_none last proper outside.1 outside.2]
      exact ⟨fun wrong => absurd wrong Bool.false_ne_true, fun wrong => absurd outside wrong⟩
    · rw [makeFullUriFromRelative_some last proper outside]
      exact ⟨fun _ => outside, fun _ => rfl⟩
  · by_cases outside : Escapes uri
    · rw [handleTrailingSlashes_none proper' outside]
      exact ⟨fun wrong => absurd wrong Bool.false_ne_true, fun wrong => absurd outside wrong⟩
    · obtain ⟨text, inside, -⟩ := handleTrailingSlashes_some 0 proper' outside
      rw [inside]
      exact ⟨fun _ => outside, fun _ => rfl⟩

theorem editors_inside_iff_plain :
    ((makeFullUriFromRelative 0 (ascii "help:") (ascii "x")).isSome ↔ ¬ (chopQuery (ascii "help:") = [] ∧ ReplacesName (ascii "x"))) ∧
      ((handleTrailingSlashes (ascii "file:////")).isSome ↔ ¬ Escapes (ascii "file:////")) :=
  editors_inside_iff 0 (ascii "x") (by decide) (by decide)

/-- Without a base, the byte in front of the copy is looked at; and so it is for `a:/`. -/
theorem editors_outside :
    (¬ ∀ baseUri reference, (0 : UInt8) ∉ baseUri → (makeFullUriFromRelative 0 baseUri reference).isSome = true) ∧
      ¬ ∀ uri, (0 : UInt8) ∉ uri → (handleTrailingSlashes uri).isSome = true := by
  constructor
  · intro inside
    exact absurd (inside [] (ascii "x") (by decide)) (by decide)
  · intro inside
    exact absurd (inside (ascii "a:/") (by decide)) (by decide)

example : makeFullUriFromRelative 0 (ascii "http://h/d/a?b") (ascii "../c") = some (ascii "http://h/c") := by decide

example : handleTrailingSlashes (ascii "file:////") = some (ascii "file:///") := by decide

end GnomeVfs.InPlace
