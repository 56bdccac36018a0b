import GnomeVfs.CString
import GnomeVfs.ParseLs
import GnomeVfs.Result

/- The tar method: the blocks of an archive, their fields, and the tree of nodes that is made of them. -/
namespace GnomeVfs.Tar

section Blocks

/-- `TARPET_BLOCKSIZE`. -/
def blockSize : Nat := 512

/-- `union TARPET_block`. -/
structure Block where
  data : Bytes
  length_data : data.length = blockSize
  deriving DecidableEq

/-- A field of this width that holds a string. -/
def fill (width : Nat) (s : Bytes) : Bytes := s.take width ++ List.replicate (width - s.length) 0

@[simp] theorem length_fill (width : Nat) (s : Bytes) : (fill width s).length = width := by
  rw [fill, List.length_append, List.length_take, List.length_replicate]
  omega

def Block.holding (s : Bytes) : Block := ⟨fill blockSize s, length_fill blockSize s⟩

/-- A header with these fields. -/
def Block.header (name size : Bytes) (typeflag : UInt8) : Block :=
  .holding (fill 124 name ++ fill 32 size ++ [typeflag])

/-- The bytes of a field; the offsets are those of `struct TARPET_POSIX`. -/
def Block.field (b : Block) (offset width : Nat) : Bytes := (b.data.drop offset).take width

def Block.size (b : Block) : Bytes := b.field 124 12

def Block.typeflag (b : Block) : UInt8 := byteAt b.data 156

/-- `TARPET_TYPE_SYMLINK` and `TARPET_TYPE_LONGFILEN`. -/
def typeSymlink : UInt8 := 50

def typeLongFilen : UInt8 := 76

/-- The loop of `parse_octal`. An `int` that overflows wraps, and 8 is one of the digits. -/
def parseOctalFrom (ret : Int) : Bytes → Int
  | [] => ret
  | c :: rest =>
    if c = 0 then ret
    else if ¬ (48 ≤ c ∧ c ≤ 56) then 0
    else parseOctalFrom (ParseLs.toInt (ret * 8 + (c.toNat - 48))) rest

def parseOctal (str : Bytes) : Int := parseOctalFrom 0 str

variable (blocks : List Block)

/-- The bytes of the array. -/
def raw : Bytes := blocks.flatMap Block.data

/-- The string at a byte of the array. It runs over the ends of blocks; a block of zeros follows the array. -/
def stringAt (offset : Nat) : Bytes := ((raw blocks).drop offset).takeWhile (· ≠ 0)

/-- A block of the array, or that block of zeros. -/
def blockAt (i : Nat) : Block := blocks.getD i ⟨List.replicate 512 0, List.length_replicate⟩

/-- `blocks[i].p.name`, which begins the block. -/
def nameAt (i : Nat) : Bytes := stringAt blocks (blockSize * i)

end Blocks

/-- The loop of `split_name_with_level`, over the indices that it takes. -/
def findLevel (name : Bytes) (level numFound : Nat) : List Nat → Option Nat
  | [] => none
  | i :: rest =>
    let numFound := if byteAt name i = chrSlash then numFound + 1 else numFound
    if level ≤ numFound then some i else findLevel name level numFound rest

/-- `split_name_with_level`: the part up to and with that slash, and what comes behind it. -/
def splitNameWithLevel (name : Bytes) (level : Nat) (backwards : Bool) : Bytes × Option Bytes :=
  let level := if name.getLast? = some chrSlash ∧ backwards then level + 1 else level
  let indices := List.range name.length
  match findLevel name level 0 (if backwards then indices.reverse else indices) with
  | some found =>
    (name.take (found + 1), if name.length ≤ found + 1 then none else some (name.drop (found + 1)))
  | none => (name, none)

def splitName (name : Bytes) : Bytes × Option Bytes := splitNameWithLevel name 1 true

section Tree

/-- A node of `info_tree`: the index of its block, and the node below which it is. -/
structure Node where
  data : Nat
  parent : Option Nat
  deriving DecidableEq

/-- The nodes in the order in which they have been appended. The root is not among them; it is the
`none` of the places where a node may be the root. -/
abbrev Tree := List Node

variable (blocks : List Block) (t : Tree)

/-- The nodes below a node, in their order. -/
def children (parent : Option Nat) : List Nat :=
  (List.range t.length).filter fun i => t[i]?.map Node.parent = some parent

/-- The index of the block of a node. -/
def dataOf (node : Nat) : Nat := (t[node]?.map Node.data).getD blocks.length

def nodeName (node : Nat) : Bytes := nameAt blocks (dataOf blocks t node)

/-- `node->next`. -/
def next (node : Nat) : Option Nat :=
  (children t ((t[node]?.map Node.parent).getD none)).find? (node < ·)

/-- `real_lookup_entry`. There are no more levels than slashes. -/
def realLookupEntry (name : Bytes) : Nat → Option Nat → Nat → Option Nat
  | 0, _, _ => none
  | fuel + 1, tree, level =>
    let (first, rest) := splitNameWithLevel name level false
    match (children t tree).find? fun node => nodeName blocks t node = first ∨ nodeName blocks t node = name with
    | none => none
    | some node =>
      if nodeName blocks t node = first ∧ rest.isSome then realLookupEntry name fuel (some node) (level + 1)
      else some node

def lookupFromRoot (name : Bytes) : Option Nat := realLookupEntry blocks t name (name.count chrSlash + 1) none 1

/-- `txt` of `tree_lookup_entry`. -/
def lookupText (name : Bytes) : Bytes := if byteAt name 0 = chrSlash then name.tail else name

/-- `txt[strlen (txt) - 1]`. The one of an empty text is the byte in front of it: the slash, or whatever
is in front of the copy of the name. -/
def lastOfText (stray : UInt8) (name : Bytes) : UInt8 :=
  (lookupText name).getLast?.getD (if byteAt name 0 = chrSlash then chrSlash else stray)

/-- What `real_lookup_entry` finds for the text, or for the text as a directory. -/
def lookupEither (stray : UInt8) (name : Bytes) : Option Nat :=
  match lookupFromRoot blocks t (lookupText name) with
  | some node => some node
  | none => if lastOfText stray name ≠ chrSlash then lookupFromRoot blocks t (lookupText name ++ [chrSlash]) else none

/-- `tree_lookup_entry`. A node behind the header of a long name stands for the one that follows it. -/
def treeLookupEntry (stray : UInt8) (name : Bytes) : Option Nat :=
  match lookupEither blocks t stray name with
  | none => none
  | some node =>
    if some node ≠ (children t none).head? ∧ (blockAt blocks (dataOf blocks t node - 1)).typeflag = typeLongFilen then
      next t node
    else some node

end Tree

section Scan

variable (blocks : List Block)

/-- The loop over the content of a member, for as many blocks as are left: how many of them it passes. -/
def skipBlocks (maxsize : Int) : Nat → Int → Nat
  | 0, _ => 0
  | left + 1, size =>
    if size < maxsize then
      skipBlocks maxsize left (size + (if maxsize - size < blockSize then maxsize - size else blockSize)) + 1
    else 0

/-- Whether the loop of `read_tar_file` takes this block as the header of a member. -/
def isTaken (b : Block) : Bool := byteAt b.data 0 ≠ 0 ∧ b.typeflag ≠ typeLongFilen

/-- One round of that loop, on the index of the block and the tree. No name that is looked up here is empty. -/
def scanStep (i : Nat) (t : Tree) : Nat × Tree :=
  let b := blockAt blocks i
  if isTaken b then
    let (dir, _) := splitName (nameAt blocks i)
    (i + skipBlocks (parseOctal b.size) (blocks.length - i) 0 + 1, t ++ [⟨i, treeLookupEntry blocks t 0 dir⟩])
  else (i + 1, t)

/-- The loop. Every round passes a block. -/
def scanFrom : Nat → Nat → Tree → Tree
  | 0, _, t => t
  | fuel + 1, i, t =>
    if i < blocks.length then scanFrom fuel (scanStep blocks i t).1 (scanStep blocks i t).2 else t

end Scan

/-- `TarFile`, without its count of references. -/
structure TarFile where
  blocks : List Block
  infoTree : Tree
  filename : Bytes

/-- `read_tar_file`, behind the reads, and the name that `ensure_tarfile` gives to the archive. -/
def readTarFile (filename : Bytes) (blocks : List Block) : TarFile :=
  ⟨blocks, scanFrom blocks blocks.length 0 [], filename⟩

end GnomeVfs.Tar
