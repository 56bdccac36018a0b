import GnomeVfs.TarContent
import GnomeVfs.TarInfo
import GnomeVfs.TarTree

/- Which bytes of the array of blocks the tar method touches. -/
namespace GnomeVfs.Tar

section Touches

/-- Bytes that are read, counted from the first byte of the array. -/
structure Touch where
  first : Int
  count : Nat

variable (blocks : List Block)

/-- All of them are bytes of a block with an index from 0 up to that of the last one. -/
def Touch.Within (touch : Touch) : Prop :=
  0 < touch.count → 0 ≤ touch.first ∧ touch.first + touch.count ≤ blockSize * blocks.length

/-- How many bytes two strings share. -/
def commonLength : Bytes → Bytes → Nat
  | a :: s, b :: t => if a = b then commonLength s t + 1 else 0
  | _, _ => 0

/-- `strlen` and `g_strdup` read a string and the NUL behind it. -/
def stringTouch (offset : Nat) : Touch := ⟨offset, (stringAt blocks offset).length + 1⟩

/-- `strcmp` reads up to the first byte that is different, which may be a NUL. -/
def compareTouch (offset : Nat) (other : Bytes) : Touch := ⟨offset, commonLength (stringAt blocks offset) other + 1⟩

end Touches

section Lookups

variable (blocks : List Block) (t : Tree) (stray : UInt8)

/-- The nodes that a `real_lookup_entry` compares, each with the `first` that it is compared with. -/
def compared (name : Bytes) : Nat → Option Nat → Nat → List (Nat × Bytes)
  | 0, _, _ => []
  | fuel + 1, tree, level =>
    let (first, rest) := splitNameWithLevel name level false
    let matching node := nodeName blocks t node = first ∨ nodeName blocks t node = name
    let nodes := ((children t tree).takeWhile fun node => ¬ matching node) ++ ((children t tree).find? matching).toList
    nodes.map (·, first) ++
      match (children t tree).find? matching with
      | none => []
      | some node =>
        if nodeName blocks t node = first ∧ rest.isSome then compared name fuel (some node) (level + 1) else []

/-- The two calls of `strcmp` on a node. -/
def nodeTouches (name : Bytes) (node : Nat) (first : Bytes) : List Touch :=
  let offset := blockSize * dataOf blocks t node
  compareTouch blocks offset first :: if nodeName blocks t node = first then [] else [compareTouch blocks offset name]

def comparedFromRoot (name : Bytes) : List (Nat × Bytes) := compared blocks t name (name.count chrSlash + 1) none 1

/-- The names that `tree_lookup_entry` looks up. -/
def lookedUp (name : Bytes) : List Bytes :=
  lookupText name ::
    if lookupFromRoot blocks t (lookupText name) = none ∧ lastOfText stray name ≠ chrSlash then
      [lookupText name ++ [chrSlash]]
    else []

/-- The type flag of the block in front of a node that has been found. -/
def flagTouches (node : Option Nat) : List Touch :=
  match node with
  | none => []
  | some node =>
    if some node ≠ (children t none).head? then [⟨blockSize * ((dataOf blocks t node : Int) - 1) + 156, 1⟩] else []

def treeLookupTouches (name : Bytes) : List Touch :=
  ((lookedUp blocks t stray name).flatMap fun name =>
    (comparedFromRoot blocks t name).flatMap fun p => nodeTouches blocks t name p.1 p.2) ++
    flagTouches blocks t (lookupEither blocks t stray name)

end Lookups

section Infos

variable (around : Around) (blocks : List Block) (i : Nat) (options : InfoOptions)

/-- What `do_get_file_info` reads of the member at this block. -/
def memberTouches : List Touch :=
  (if i ≠ 0 then [⟨blockSize * ((i : Int) - 2) + 156, 1⟩] else []) ++
    [stringTouch blocks (nameOffset around blocks i), ⟨blockSize * (i : Int), blockSize⟩] ++
    (if memberType around blocks i = .symbolicLink then [stringTouch blocks (linknameOffset i)] else []) ++
    (if guessesFromData around blocks i options then [⟨blockSize * ((i : Int) + 1), guessLength blocks i⟩] else [])

def fileInfoTouches (tar : TarFile) (text : Option Bytes) : List Touch :=
  (text.map (treeLookupTouches tar.blocks tar.infoTree around.stray)).getD [] ++
    ((namedNode around tar text).map fun node =>
      memberTouches around tar.blocks (dataOf tar.blocks tar.infoTree node) options).getD []

end Infos

/-- A handle of a file of this archive. -/
structure OpenFile (tar : TarFile) where
  handle : FileHandle
  start : Nat
  tar_eq : handle.tar = tar
  start_eq : handle.start = some start
  file : handle.isDirectory = false
  inside : start < tar.blocks.length

/-- The bytes that a copy of `do_read` reads. -/
def Copy.touch (start : Nat) (c : Copy) : Touch := ⟨blockSize * start + c.offset, c.length⟩

section Strings

variable {blocks : List Block} {offset : Nat} {other : Bytes}

theorem length_raw (blocks : List Block) : (raw blocks).length = blockSize * blocks.length := by
  induction blocks with
  | nil => rfl
  | cons b blocks ih =>
    rw [raw, List.flatMap_cons, List.length_append, b.length_data, List.length_cons]
    change blockSize + (raw blocks).length = _
    rw [ih, Nat.mul_succ, Nat.add_comm]

/-- That a NUL ends the string at this byte inside the array. -/
def Ends (blocks : List Block) (offset : Nat) : Prop := 0 ∈ (raw blocks).drop offset

theorem takeWhile_ne_zero (s : Bytes) : (s.takeWhile (· ≠ 0)).length ≤ s.length ∧
    ((s.takeWhile (· ≠ 0)).length < s.length ↔ 0 ∈ s) := by
  induction s with
  | nil => exact ⟨Nat.le_refl _, fun less => absurd less (Nat.lt_irrefl _), fun member => absurd member List.not_mem_nil⟩
  | cons c s ih =>
    by_cases zero : c = 0
    · rw [List.takeWhile_cons_of_neg (by rw [zero]; decide)]
      exact ⟨Nat.zero_le _, fun _ => by rw [zero]; exact List.mem_cons_self, fun _ => Nat.zero_lt_succ _⟩
    · rw [List.takeWhile_cons_of_pos (by exact decide_eq_true zero), List.length_cons, List.length_cons, Nat.succ_lt_succ_iff,
        ih.2, List.mem_cons]
      exact ⟨Nat.succ_le_succ ih.1, Or.inr, fun either => either.resolve_left (Ne.symm zero)⟩

theorem length_stringAt (blocks : List Block) (offset : Nat) : (stringAt blocks offset).length ≤ blockSize * blocks.length - offset ∧
    ((stringAt blocks offset).length < blockSize * blocks.length - offset ↔ Ends blocks offset) := by
  have string := takeWhile_ne_zero ((raw blocks).drop offset)
  rwa [List.length_drop, length_raw] at string

theorem stringTouch_within (inside : offset < blockSize * blocks.length) :
    (stringTouch blocks offset).Within blocks ↔ Ends blocks offset := by
  have length := length_stringAt blocks offset
  rw [← length.2]
  change (0 < (stringAt blocks offset).length + 1 → (0 : Int) ≤ offset ∧
    (offset : Int) + ((stringAt blocks offset).length + 1 : Nat) ≤ blockSize * blocks.length) ↔ _
  omega

theorem commonLength_le (s : Bytes) : ∀ t, commonLength s t ≤ s.length ∧ (commonLength s t = s.length ↔ s <+: t) := by
  induction s with
  | nil => exact fun t => ⟨Nat.le_refl _, fun _ => List.nil_prefix, fun _ => rfl⟩
  | cons a s ih =>
    intro t
    cases t with
    | nil =>
      refine ⟨Nat.zero_le _, fun same => absurd same (Nat.succ_ne_zero _).symm, fun front => ?_⟩
      exact absurd (List.prefix_nil.mp front) (List.cons_ne_nil _ _)
    | cons b t =>
      rw [commonLength, List.cons_prefix_cons]
      split
      · rename_i same
        rw [List.length_cons, Nat.succ_inj, (ih t).2]
        exact ⟨Nat.succ_le_succ (ih t).1, fun front => ⟨same, front⟩, And.right⟩
      · rename_i different
        exact ⟨Nat.zero_le _, fun same => absurd same (Nat.succ_ne_zero _).symm, fun both => absurd both.1 different⟩

/-- A comparison goes out of the array exactly if it finds no difference up to its end. -/
theorem compareTouch_within (inside : offset < blockSize * blocks.length) (other : Bytes) :
    (compareTouch blocks offset other).Within blocks ↔ ¬ (¬ Ends blocks offset ∧ stringAt blocks offset <+: other) := by
  have length := length_stringAt blocks offset
  have common := commonLength_le (stringAt blocks offset) other
  rw [← length.2, ← common.2]
  change (0 < commonLength (stringAt blocks offset) other + 1 → (0 : Int) ≤ offset ∧
    (offset : Int) + (commonLength (stringAt blocks offset) other + 1 : Nat) ≤ blockSize * blocks.length) ↔ _
  omega

end Strings

section LookupBounds

variable {blocks : List Block} {t : Tree} {stray : UInt8} {name : Bytes}

/-- That the name of a node runs to the end of the array, and that the text begins with it. -/
def Overruns (blocks : List Block) (t : Tree) (name : Bytes) (node : Nat) : Prop :=
  ¬ Ends blocks (blockSize * dataOf blocks t node) ∧ nodeName blocks t node <+: name

theorem splitNameWithLevel_prefix (name : Bytes) (level : Nat) (backwards : Bool) :
    (splitNameWithLevel name level backwards).1 <+: name := by
  rw [splitNameWithLevel]
  split
  · exact List.take_prefix _ _
  · exact List.prefix_rfl

theorem compared_mem (fuel : Nat) : ∀ {tree : Option Nat} {level : Nat} {p : Nat × Bytes},
    p ∈ compared blocks t name fuel tree level → p.1 < t.length ∧ p.2 <+: name := by
  induction fuel with
  | zero => exact fun member => absurd member List.not_mem_nil
  | succ fuel ih =>
    intro tree level p member
    rw [compared] at member
    dsimp only at member
    rcases List.mem_append.mp member with here | deeper
    · obtain ⟨node, among, rfl⟩ := List.mem_map.mp here
      refine ⟨?_, splitNameWithLevel_prefix _ _ _⟩
      rcases List.mem_append.mp among with before | found
      · exact lt_of_mem_children (List.takeWhile_subset _ before)
      · exact lt_of_mem_children (List.mem_of_find?_eq_some (Option.mem_toList.mp found))
    · split at deeper
      · cases deeper
      · split at deeper
        · exact ih deeper
        · cases deeper

theorem nodeTouches_within {node : Nat} {first : Bytes} (inside : dataOf blocks t node < blocks.length) (front : first <+: name) :
    (∀ touch ∈ nodeTouches blocks t name node first, touch.Within blocks) ↔ ¬ Overruns blocks t name node := by
  have offset : blockSize * dataOf blocks t node < blockSize * blocks.length := Nat.mul_lt_mul_of_pos_left inside (by decide)
  have by_first := compareTouch_within offset first
  have by_name := compareTouch_within offset name
  rw [nodeTouches, List.forall_mem_cons, by_first]
  by_cases same : nodeName blocks t node = first
  · rw [if_pos same]
    constructor
    · rintro ⟨fits, -⟩ ⟨unended, -⟩
      exact fits ⟨unended, by rw [← same]; exact List.prefix_rfl⟩
    · exact fun fits => ⟨fun both => fits ⟨both.1, both.2.trans front⟩, fun _ member => absurd member List.not_mem_nil⟩
  · rw [if_neg same, List.forall_mem_singleton, by_name]
    exact ⟨fun both => both.2, fun fits => ⟨fun both => fits ⟨both.1, both.2.trans front⟩, fits⟩⟩

/-- The conditions under which a lookup stays inside the array. -/
def LookupFits (blocks : List Block) (t : Tree) (stray : UInt8) (name : Bytes) : Prop :=
  ∀ text ∈ lookedUp blocks t stray name, ∀ p ∈ comparedFromRoot blocks t text, ¬ Overruns blocks t text p.1

theorem flagTouches_within {i : Nat} (sound : t.Sound blocks i) {node : Option Nat} (there : ∀ n ∈ node, n < t.length) :
    ∀ touch ∈ flagTouches blocks t node, touch.Within blocks := by
  intro touch member
  cases node with
  | none => cases member
  | some node =>
    rw [flagTouches] at member
    split at member
    · rename_i other
      have positive := sound.head_children (there node rfl) other
      have inside := sound.dataOf_lt (there node rfl)
      rw [List.mem_singleton.mp member]
      intro _
      change (0 : Int) ≤ (512 : Nat) * ((dataOf blocks t node : Int) - 1) + 156 ∧
        (512 : Nat) * ((dataOf blocks t node : Int) - 1) + 156 + 1 ≤ (512 : Nat) * blocks.length
      omega
    · cases member

theorem treeLookupTouches_within {i : Nat} (sound : t.Sound blocks i) :
    (∀ touch ∈ treeLookupTouches blocks t stray name, touch.Within blocks) ↔ LookupFits blocks t stray name := by
  rw [treeLookupTouches]
  constructor
  · intro within text looked p among
    have member := compared_mem _ among
    refine (nodeTouches_within (sound.dataOf_lt member.1) member.2).mp fun touch touched => within touch ?_
    exact List.mem_append_left _ (List.mem_flatMap.mpr ⟨text, looked, List.mem_flatMap.mpr ⟨p, among, touched⟩⟩)
  · intro fits touch touched
    rcases List.mem_append.mp touched with comparing | flag
    · obtain ⟨text, looked, comparing⟩ := List.mem_flatMap.mp comparing
      obtain ⟨p, among, comparing⟩ := List.mem_flatMap.mp comparing
      have member := compared_mem _ among
      exact (nodeTouches_within (sound.dataOf_lt member.1) member.2).mpr (fits text looked p among) touch comparing
    · exact flagTouches_within sound (fun n found => lookupEither_lt found) touch flag

end LookupBounds

section InfoBounds

variable {around : Around} {blocks : List Block} {i : Nat} {options : InfoOptions}

/-- When `do_get_file_info` stays inside the array at this block: it is not the second one, its name and the
name that it links to end inside the array, and a block is behind it where the MIME type is guessed from one. -/
structure MemberFits (around : Around) (blocks : List Block) (options : InfoOptions) (i : Nat) : Prop where
  second : i ≠ 1
  name : Ends blocks (nameOffset around blocks i)
  link : memberType around blocks i = .symbolicLink → Ends blocks (linknameOffset i)
  guess : guessesFromData around blocks i options = true → i + 1 < blocks.length

theorem nameOffset_lt (around : Around) (inside : i < blocks.length) : nameOffset around blocks i < blockSize * blocks.length := by
  unfold nameOffset blockSize
  split <;> omega

theorem guessLength_pos (guesses : guessesFromData around blocks i options = true) : 0 < guessLength blocks i := by
  have some_size : parseOctal (blockAt blocks i).size ≠ 0 := fun none =>
    (of_decide_eq_true guesses).2.2 (Or.inl none)
  have range := parseOctal_range (blockAt blocks i).size
  unfold guessLength blockSize toSize
  omega

theorem memberTouches_within (inside : i < blocks.length) :
    (∀ touch ∈ memberTouches around blocks i options, touch.Within blocks) ↔ MemberFits around blocks options i := by
  have flag : (∀ touch ∈ (if i ≠ 0 then [⟨blockSize * ((i : Int) - 2) + 156, 1⟩] else [] : List Touch),
      touch.Within blocks) ↔ i ≠ 1 := by
    by_cases first : i = 0
    · rw [if_neg (not_not.mpr first), first]
      exact ⟨fun _ => by decide, fun _ _ member => absurd member List.not_mem_nil⟩
    · rw [if_pos first, List.forall_mem_singleton]
      change (0 < 1 → (0 : Int) ≤ (512 : Nat) * ((i : Int) - 2) + 156 ∧
        (512 : Nat) * ((i : Int) - 2) + 156 + (1 : Nat) ≤ (512 : Nat) * blocks.length) ↔ _
      omega
  have fields : Touch.Within blocks ⟨blockSize * (i : Int), blockSize⟩ := by
    change 0 < 512 → (0 : Int) ≤ (512 : Nat) * (i : Int) ∧ (512 : Nat) * (i : Int) + (512 : Nat) ≤ (512 : Nat) * blocks.length
    omega
  have name := stringTouch_within (nameOffset_lt around inside)
  have link : (∀ touch ∈ (if memberType around blocks i = .symbolicLink then [stringTouch blocks (linknameOffset i)] else []),
      touch.Within blocks) ↔ (memberType around blocks i = .symbolicLink → Ends blocks (linknameOffset i)) := by
    have behind : linknameOffset i < blockSize * blocks.length := by
      unfold linknameOffset blockSize
      omega
    by_cases symlink : memberType around blocks i = .symbolicLink
    · rw [if_pos symlink, List.forall_mem_singleton, stringTouch_within behind]
      exact ⟨fun ends _ => ends, fun ends => ends symlink⟩
    · rw [if_neg symlink]
      exact ⟨fun _ yes => absurd yes symlink, fun _ _ member => absurd member List.not_mem_nil⟩
  have guess : (∀ touch ∈ (if guessesFromData around blocks i options = true then
      [⟨blockSize * ((i : Int) + 1), guessLength blocks i⟩] else [] : List Touch), touch.Within blocks) ↔
      (guessesFromData around blocks i options = true → i + 1 < blocks.length) := by
    by_cases guesses : guessesFromData around blocks i options = true
    · have some_bytes := guessLength_pos guesses
      have at_most : guessLength blocks i ≤ 512 := Nat.min_le_left _ _
      rw [if_pos guesses, List.forall_mem_singleton]
      change (0 < guessLength blocks i → (0 : Int) ≤ (512 : Nat) * ((i : Int) + 1) ∧
        (512 : Nat) * ((i : Int) + 1) + guessLength blocks i ≤ (512 : Nat) * blocks.length) ↔ _
      constructor
      · intro within _
        have := within some_bytes
        omega
      · intro short _
        have := short guesses
        omega
    · rw [if_neg guesses]
      exact ⟨fun _ yes => absurd yes guesses, fun _ _ member => absurd member List.not_mem_nil⟩
  simp only [memberTouches, List.forall_mem_append, List.forall_mem_cons, flag, name, fields, link, guess]
  constructor
  · rintro ⟨⟨⟨second, ends, -, -⟩, link⟩, guess⟩
    exact ⟨second, ends, link, guess⟩
  · rintro ⟨second, ends, link, guess⟩
    exact ⟨⟨⟨second, ends, True.intro, fun _ member => absurd member List.not_mem_nil⟩, link⟩, guess⟩

/-- The conditions under which `do_get_file_info` stays inside the array. -/
structure InfoFits (around : Around) (options : InfoOptions) (tar : TarFile) (text : Option Bytes) : Prop where
  lookup : ∀ name ∈ text, LookupFits tar.blocks tar.infoTree around.stray name
  member : ∀ node ∈ namedNode around tar text, MemberFits around tar.blocks options (dataOf tar.blocks tar.infoTree node)

theorem fileInfoTouches_within {tar : TarFile} (sound : tar.infoTree.Sound tar.blocks i) (text : Option Bytes) :
    (∀ touch ∈ fileInfoTouches around options tar text, touch.Within tar.blocks) ↔ InfoFits around options tar text := by
  have looks : (∀ touch ∈ (text.map (treeLookupTouches tar.blocks tar.infoTree around.stray)).getD [],
      touch.Within tar.blocks) ↔ ∀ name ∈ text, LookupFits tar.blocks tar.infoTree around.stray name := by
    cases text with
    | none => exact ⟨fun _ _ member => absurd member (Option.not_mem_none _), fun _ _ member => absurd member List.not_mem_nil⟩
    | some name =>
      refine (treeLookupTouches_within sound).trans ⟨fun fits name' same => ?_, fun fits => fits name rfl⟩
      rwa [← Option.some.inj same]
  have tells : (∀ touch ∈ ((namedNode around tar text).map fun node =>
      memberTouches around tar.blocks (dataOf tar.blocks tar.infoTree node) options).getD [], touch.Within tar.blocks) ↔
      ∀ node ∈ namedNode around tar text, MemberFits around tar.blocks options (dataOf tar.blocks tar.infoTree node) := by
    cases named : namedNode around tar text with
    | none => exact ⟨fun _ _ member => absurd member (Option.not_mem_none _), fun _ _ member => absurd member List.not_mem_nil⟩
    | some node =>
      have inside : node < tar.infoTree.length := by
        cases text with
        | none => exact lt_of_mem_children (List.mem_of_head? named)
        | some name => exact treeLookupEntry_lt named
      refine (memberTouches_within (sound.dataOf_lt inside)).trans ⟨fun fits node' same => ?_, fun fits => fits node rfl⟩
      rwa [← Option.some.inj same]
  rw [fileInfoTouches, List.forall_mem_append, looks, tells]
  exact ⟨fun both => ⟨both.1, both.2⟩, fun fits => ⟨fits.lookup, fits.member⟩⟩

end InfoBounds

section ReadBounds

variable {tar : TarFile}

/-- How many bytes a call of `do_read` copies. -/
def OpenFile.total (f : OpenFile tar) (numBytes : Nat) : Nat := totalRead f.handle.ahead (f.handle.left f.start) numBytes

/-- When `do_read` stays inside the array: none of its sums overflows, and if it copies anything at all, it
begins behind the first byte of the array and stops before the last one. -/
structure OpenFile.ReadFits (f : OpenFile tar) (numBytes : Nat) : Prop where
  sums : f.handle.begin.Fits f.handle.ahead (f.handle.left f.start) numBytes
  bytes : 0 < f.total numBytes → 0 ≤ (blockSize * f.start : Int) + f.handle.onward.currentOffset ∧
    (blockSize * f.start : Int) + f.handle.onward.currentOffset + f.total numBytes ≤ blockSize * tar.blocks.length

theorem pieces_within (blocks : List Block) (start total : Nat) (offset : Int) :
    (∀ c ∈ pieces offset total, (c.touch start).Within blocks) ↔
      (0 < total → 0 ≤ (blockSize * start : Int) + offset ∧
        (blockSize * start : Int) + offset + total ≤ blockSize * blocks.length) := by
  induction total using Nat.strongRecOn generalizing offset with
  | ind total ih =>
    by_cases none_left : total = 0
    · rw [none_left, pieces_zero]
      exact ⟨fun _ more => absurd more (Nat.lt_irrefl 0), fun _ _ member => absurd member List.not_mem_nil⟩
    by_cases short : total ≤ 512
    · rw [pieces_short (by omega) short, List.forall_mem_singleton]
      rfl
    · obtain ⟨rest, rfl⟩ := Nat.exists_eq_add_of_le (Nat.le_of_not_le short)
      rw [pieces_cons, List.forall_mem_cons, ih rest (by omega)]
      change ((0 < 512 → 0 ≤ (blockSize * start : Int) + offset ∧
        (blockSize * start : Int) + offset + (512 : Nat) ≤ blockSize * blocks.length) ∧ _) ↔ _
      omega

theorem doRead_within (f : OpenFile tar) (numBytes : Nat) :
    (∃ r, doRead f.handle numBytes = some r ∧ ∀ c ∈ r.copies, (c.touch f.start).Within tar.blocks) ↔ f.ReadFits numBytes := by
  have bounds := pieces_within tar.blocks f.start (f.total numBytes) f.handle.onward.currentOffset
  rcases doRead_spec f.file f.start_eq numBytes with ⟨fits, r, read, does⟩ | ⟨large, failed⟩
  · constructor
    · rintro ⟨r', read', within⟩
      obtain rfl := Option.some.inj (read.symm.trans read')
      rw [does.copies] at within
      exact ⟨fits, bounds.mp within⟩
    · intro fits
      refine ⟨r, read, ?_⟩
      rw [does.copies]
      exact bounds.mpr fits.bytes
  · constructor
    · rintro ⟨r, read, -⟩
      exact absurd (failed.symm.trans read) (Option.some_ne_none r).symm
    · exact fun fits => absurd fits.sums large

/-- What `do_open` gives is an open file, and it stays one. -/
theorem doOpen_openFile {i : Nat} {stray : UInt8} {text : Bytes} {h : FileHandle} (sound : tar.infoTree.Sound tar.blocks i)
    (opened : doOpen tar stray text = .ok h) : ∃ f : OpenFile tar, f.handle = h := by
  rw [doOpen] at opened
  split at opened
  · cases opened
  · rename_i node found
    dsimp only at opened
    split at opened
    · cases opened
    · obtain rfl := Except.ok.inj opened
      exact ⟨⟨_, _, rfl, rfl, rfl, sound.dataOf_lt (treeLookupEntry_lt found)⟩, rfl⟩

theorem doRead_openFile {f : OpenFile tar} {numBytes : Nat} {r : ReadResult} (read : doRead f.handle numBytes = some r) :
    ∃ f' : OpenFile tar, f'.handle = r.handle ∧ f'.start = f.start := by
  rcases doRead_spec f.file f.start_eq numBytes with ⟨-, r', read', does⟩ | ⟨-, failed⟩
  · obtain rfl := Option.some.inj (read.symm.trans read')
    exact ⟨⟨r.handle, f.start, does.tar.trans f.tar_eq, does.start.trans f.start_eq, does.file, f.inside⟩, rfl, rfl⟩
  · exact absurd (failed.symm.trans read) (Option.some_ne_none r).symm

theorem doSeek_openFile (f : OpenFile tar) (whence : SeekPosition) (offset : Int) :
    ∃ f' : OpenFile tar, f'.handle = doSeek f.handle whence offset ∧ f'.start = f.start :=
  ⟨⟨doSeek f.handle whence offset, f.start, by rw [doSeek_tar, f.tar_eq], by rw [doSeek_start, f.start_eq],
    by rw [doSeek_isDirectory, f.file], f.inside⟩, rfl, rfl⟩

end ReadBounds

/-- Where the tar method stays inside the array of an archive, whatever its blocks are: in a lookup, in
telling about a member, and in a read from an open file, whatever has been done to its handle before. -/
theorem accesses_within_iff (filename : Bytes) (blocks : List Block) :
    let tar := readTarFile filename blocks
    (∀ stray name, (∀ touch ∈ treeLookupTouches tar.blocks tar.infoTree stray name, touch.Within tar.blocks) ↔
      LookupFits tar.blocks tar.infoTree stray name) ∧
    (∀ around options text, (∀ touch ∈ fileInfoTouches around options tar text, touch.Within tar.blocks) ↔
      InfoFits around options tar text) ∧
    ∀ (f : OpenFile tar) (numBytes : Nat),
      (∃ r, doRead f.handle numBytes = some r ∧ ∀ c ∈ r.copies, (c.touch f.start).Within tar.blocks) ↔
        f.ReadFits numBytes := by
  obtain ⟨i, sound⟩ := readTarFile_sound filename blocks
  exact ⟨fun _ _ => treeLookupTouches_within sound, fun _ _ text => fileInfoTouches_within sound text, doRead_within⟩

/-- The second member of an archive of two empty ones: the flag is looked for in front of the array. -/
theorem second_member_reads_before : ¬ ∀ touch ∈ fileInfoTouches ⟨0, 0⟩ {}
    (readTarFile (ascii "x") [.header (ascii "a") [] 48, .header (ascii "b") [] 48]) (some (ascii "b")),
    touch.Within [.header (ascii "a") [] 48, .header (ascii "b") [] 48] := by
  intro within
  have before : (fileInfoTouches ⟨0, 0⟩ {}
      (readTarFile (ascii "x") [.header (ascii "a") [] 48, .header (ascii "b") [] 48]) (some (ascii "b"))).any
      (fun touch => touch.first < 0 ∧ 0 < touch.count) = true := by decide +kernel
  obtain ⟨touch, touched, negative⟩ := List.any_eq_true.mp before
  have negative := of_decide_eq_true negative
  have inside := within touch touched negative.2
  omega

end GnomeVfs.Tar
