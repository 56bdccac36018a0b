import GnomeVfs.Canonicalize
import GnomeVfs.Uri

/- Relative references: `make_full_uri_from_relative` and what it calls. -/
namespace GnomeVfs

/-- `is_uri_relative`. -/
def isUriRelative (uri : Bytes) : Bool := (uri.dropWhile isMethodChar).head? != some chrColon

/-- The variables of `remove_internal_relative_components`. The previous segment never starts
behind the current one. -/
structure RelativeState where
  uri : Bytes
  segmentCur : Nat
  segmentPrev : Option Nat
  lenPrev : Nat
  ordered : ∀ p, segmentPrev = some p → p ≤ segmentCur

/-- Walk back from an offset to the start of its segment. -/
def segmentStart (uri : Bytes) : Nat → Nat
  | 0 => if byteAt uri 0 = chrSlash then 1 else 0
  | q + 1 => if byteAt uri (q + 1) = chrSlash then q + 2 else segmentStart uri q

theorem segmentStart_le (uri : Bytes) (q : Nat) : segmentStart uri q ≤ q + 1 := by
  induction q with
  | zero =>
    unfold segmentStart
    split <;> omega
  | succ q ih =>
    unfold segmentStart
    split <;> omega

/-- The segment in front of the one at `p`. At offset 1 the source leaves the pointer alone. -/
def previousSegment (uri : Bytes) (p : Nat) : Option Nat :=
  if p = 0 then none else if 2 ≤ p then some (segmentStart uri (p - 2)) else some p

theorem previousSegment_le {uri : Bytes} {p q : Nat} (found : previousSegment uri p = some q) :
    q ≤ p := by
  unfold previousSegment at found
  split at found
  · cases found
  split at found
  · cases found
    have := segmentStart_le uri (p - 2)
    omega
  · cases found
    exact Nat.le_refl _

inductive RelativeStep where
  | done (uri : Bytes)
  | next (state : RelativeState)

/-- `strcspn (segment, "/")`. -/
def segmentLength (uri : Bytes) (i : Nat) : Nat := ((uri.drop i).takeWhile (· != chrSlash)).length

theorem current_le {i n p : Nat} (same : some i = some p) : p ≤ i + n + 1 := by
  have : i = p := Option.some.inj same
  omega

/-- One round of the loop. `..` takes the segment in front of it away, unless there is none or
that segment is `..` as well; the length it is compared by can be that of an older segment. -/
def relativeStep (s : RelativeState) : RelativeStep :=
  let i := s.segmentCur
  let lenCur := segmentLength s.uri i
  let forward : RelativeStep :=
    if byteAt s.uri (i + lenCur) = 0 then .done s.uri
    else .next ⟨s.uri, i + lenCur + 1, some i, lenCur, fun _ => current_le⟩
  if byteAt s.uri i = 0 then .done s.uri
  else if lenCur = 1 ∧ byteAt s.uri i = chrDot then
    if byteAt s.uri (i + 1) = 0 then .done (s.uri.take i)
    else .next ⟨s.uri.take i ++ s.uri.drop (i + 2), i, s.segmentPrev, s.lenPrev, s.ordered⟩
  else if lenCur = 2 ∧ byteAt s.uri i = chrDot ∧ byteAt s.uri (i + 1) = chrDot then
    match s.segmentPrev with
    | none => forward
    | some p =>
      if s.lenPrev = 2 ∧ byteAt s.uri p = chrDot ∧ byteAt s.uri (p + 1) = chrDot then forward
      else if byteAt s.uri (i + 2) = 0 then .done (s.uri.take p)
      else
        .next ⟨s.uri.take p ++ s.uri.drop (i + 3), p, previousSegment s.uri p, s.lenPrev,
          fun _ => previousSegment_le⟩
  else forward

def relativeLoop : Nat → RelativeState → Bytes
  | 0, s => s.uri
  | fuel + 1, s =>
    match relativeStep s with
    | .done uri => uri
    | .next t => relativeLoop fuel t

/-- `remove_internal_relative_components`: the text left in the buffer. -/
def removeInternalRelativeComponents (uri : Bytes) : Bytes :=
  relativeLoop (2 * uri.length + 1) ⟨uri, 0, none, 0, by simp⟩

/-- A round that goes on comes closer to the end of the text. -/
def RelativeState.left (s : RelativeState) : Nat := 2 * s.uri.length - s.segmentCur

theorem relativeStep_left {s t : RelativeState} (step : relativeStep s = .next t) :
    t.left < s.left := by
  have forwardLeft : ∀ {n : Nat} {h : ∀ p, some s.segmentCur = some p → p ≤ s.segmentCur + n + 1},
      byteAt s.uri s.segmentCur ≠ 0 →
      (⟨s.uri, s.segmentCur + n + 1, some s.segmentCur, n, h⟩ : RelativeState).left < s.left := by
    intro n h present
    have := lt_length_of_byteAt_ne_zero present
    simp only [RelativeState.left]
    omega
  unfold relativeStep at step
  simp only at step
  split at step
  · cases step
  rename_i present
  have here := lt_length_of_byteAt_ne_zero present
  split at step
  · split at step
    · cases step
    · rename_i second
      have := lt_length_of_byteAt_ne_zero second
      cases step
      simp only [RelativeState.left, List.length_append, List.length_take, List.length_drop]
      omega
  split at step
  · split at step
    · split at step
      · cases step
      · cases step
        exact forwardLeft present
    · rename_i p back
      split at step
      · split at step
        · cases step
        · cases step
          exact forwardLeft present
      · split at step
        · cases step
        · rename_i third
          have := lt_length_of_byteAt_ne_zero third
          have := s.ordered p back
          cases step
          simp only [RelativeState.left, List.length_append, List.length_take, List.length_drop]
          omega
  · split at step
    · cases step
    · cases step
      exact forwardLeft present

theorem relativeLoop_enough (fuel : Nat) : ∀ (s : RelativeState) (more : Nat), s.left < fuel →
    relativeLoop (fuel + more) s = relativeLoop fuel s := by
  induction fuel with
  | zero => intro s more enough; omega
  | succ fuel ih =>
    intro s more enough
    rw [Nat.add_right_comm]
    unfold relativeLoop
    cases step : relativeStep s with
    | done uri => rfl
    | next t =>
      have := relativeStep_left step
      exact ih t more (by omega)

example : removeInternalRelativeComponents (ascii "../a/./b/../c/.") = ascii "../a/c/" := by decide

/-- The offset of the first occurrence of `pattern`. -/
def strstr (s pattern : Bytes) : Option Nat := s.tails.findIdx? (pattern.isPrefixOf ·)

/-- The base as a directory: a trailing slash goes, and otherwise the file name. A slash that
follows another one is kept, because the first of them may end the authority. -/
def chopFileName (base : Bytes) : Bytes :=
  if base.getLast? = some chrSlash then base.dropLast
  else
    match cutLast base chrSlash with
    | none => base
    | some front =>
      if front ≠ [] ∧ front.getLast? ≠ some chrSlash then front
      else if (strstr base (ascii ":///")).map (· + 3) = some front.length then
        base.take (front.length + 1)
      else base

/-- Each `../` in front of the reference takes the last slash off the base and what follows it.
The loop ends when there is no slash left, behind the `../` it has just passed. -/
def chopParents (base : Bytes) : Bytes → Bytes × Bytes
  | a :: b :: c :: rest =>
    if [a, b, c] = ascii "../" then
      match cutLast base chrSlash with
      | some shorter => chopParents shorter rest
      | none => (base, rest)
    else (base, a :: b :: c :: rest)
  | uri => (base, uri)

/-- A final `..` is one more step up. -/
def chopLastParent (base uri : Bytes) : Bytes × Bytes :=
  if uri = ascii ".." then ((cutLast base chrSlash).getD base, []) else (base, uri)

/-- The base at the authority, for a reference that starts with one slash. -/
def chopPath (base : Bytes) : Bytes :=
  match strchr base chrColon with
  | none => base
  | some separator =>
    if separator.tail.take 2 = ascii "//" then
      match strchr (separator.drop 3) chrSlash with
      | none => base
      | some path => strdupTo base path
    else strdupTo base separator ++ [chrColon]

/-- The base at the scheme, for a reference that starts with an authority. -/
def chopAuthority (base : Bytes) : Bytes :=
  match strchr base chrColon with
  | none => base
  | some separator => strdupTo base separator ++ [chrColon]

/-- The base without its fragment and query. -/
def chopQuery (base : Bytes) : Bytes :=
  let base := (cutLast base chrHash).getD base
  (cutLast base 63).getD base

/-- `make_full_uri_from_relative`. -/
def makeFullUriFromRelative (baseUri uri : Bytes) : Bytes :=
  let base := chopQuery baseUri
  if uri.take 2 = ascii "//" then chopAuthority base ++ uri
  else if uri.head? = some chrSlash then chopPath base ++ uri
  else if uri.head? ≠ some chrHash then
    let climbed := chopParents (chopFileName base) (removeInternalRelativeComponents uri)
    let last := chopLastParent climbed.1 climbed.2
    last.1 ++ chrSlash :: last.2
  else base ++ uri

/-- `gnome_vfs_uri_make_full_from_relative`. -/
def uriMakeFullFromRelative (baseUri relativeUri : Option Bytes) : Option Bytes :=
  match baseUri, relativeUri with
  | none, none => none
  | none, some relative => some relative
  | some base, none => some base
  | some base, some relative =>
    if isUriRelative relative then some (makeFullUriFromRelative base relative) else some relative

example : uriMakeFullFromRelative (some (ascii "http://www.gnome.org/a/b?x#y")) (some (ascii "../c")) =
    some (ascii "http://www.gnome.org/c") := by decide

end GnomeVfs
