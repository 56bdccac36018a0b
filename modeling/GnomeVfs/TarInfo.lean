import GnomeVfs.FtpControl
import GnomeVfs.TarRead

/- What the tar method tells of a member. -/
namespace GnomeVfs.Tar

/-- The types that `do_get_file_info` tells. -/
inductive MemberType where
  | directory | symbolicLink | regular
  deriving DecidableEq

/-- The fields of `GnomeVFSFileInfo` that are filled in. The mask of them is always the same. -/
structure FileInfo where
  name : Bytes
  type : MemberType
  symlinkName : Option Bytes
  permissions : Int
  uid : Int
  gid : Int
  size : Int
  mtime : Int
  atime : Int
  ctime : Int
  mimeType : Bytes

/-- The guesses of a MIME type: from the first bytes of a file, and from its path alone. -/
structure MimeGuess where
  forData : Bytes → Option Bytes
  forPath : Bytes → Bytes

/-- `GnomeVFSFileInfoOptions`, as far as they are looked at. -/
structure InfoOptions where
  followLinks : Bool := false
  forceFastMimeType : Bool := false

/-- What is in the memory around what belongs to the archive: the type flag of the block in front of the
array, and the byte in front of a copied string. -/
structure Around where
  typeflag : UInt8
  stray : UInt8

section Member

variable (around : Around) (blocks : List Block) (i : Nat)

/-- `tar->blocks[i - 2].p.typeflag`. The block in front of the first one is not in the array. -/
def flagBefore : UInt8 := if i < 2 then around.typeflag else (blockAt blocks (i - 2)).typeflag

/-- That the member at this block has a long name. -/
def isLongNamed : Bool := i ≠ 0 ∧ flagBefore around blocks i = typeLongFilen

/-- The byte at which its name begins. -/
def nameOffset : Nat := if isLongNamed around blocks i then blockSize * (i - 1) else blockSize * i

def memberName : Bytes := stringAt blocks (nameOffset around blocks i)

def memberType : MemberType :=
  if (memberName around blocks i).getLast?.getD around.stray = chrSlash then .directory
  else if (blockAt blocks i).typeflag = typeSymlink then .symbolicLink
  else .regular

/-- The byte at which the name that a link refers to begins. -/
def linknameOffset : Nat := blockSize * i + 157

/-- That the MIME type is guessed from the block behind the header. -/
def guessesFromData (options : InfoOptions) : Bool :=
  memberType around blocks i ≠ .directory ∧
    ¬ (options.followLinks = false ∧ memberType around blocks i = .symbolicLink) ∧
    ¬ (parseOctal (blockAt blocks i).size = 0 ∨ options.forceFastMimeType)

/-- `MIN (TARPET_BLOCKSIZE, file_info->size)`. -/
def guessLength : Nat := min blockSize (toSize (parseOctal (blockAt blocks i).size))

/-- What `do_get_file_info` fills in for the member at this block. -/
def memberInfo (guess : MimeGuess) (uriString : Bytes) (options : InfoOptions) : FileInfo :=
  let b := blockAt blocks i
  let type := memberType around blocks i
  { name := Ftp.pathGetBasename (memberName around blocks i)
    type := type
    symlinkName := if type = .symbolicLink then some (stringAt blocks (linknameOffset i)) else none
    permissions := parseOctal (b.field 100 8)
    uid := parseOctal (b.field 108 8)
    gid := parseOctal (b.field 116 8)
    size := parseOctal b.size
    mtime := parseOctal (b.field 136 12)
    atime := parseOctal (b.field 0 12)
    ctime := parseOctal (b.field 12 12)
    mimeType :=
      if type = .directory then ascii "x-directory/normal"
      else if options.followLinks = false ∧ type = .symbolicLink then ascii "x-special/symlink"
      else if guessesFromData around blocks i options then
        (guess.forData ((blockAt blocks (i + 1)).data.take (guessLength blocks i))).getD (guess.forPath uriString)
      else guess.forPath uriString }

end Member

/-- The node that a text names; without a text it is the first one below the root. -/
def namedNode (around : Around) (tar : TarFile) : Option Bytes → Option Nat
  | some text => treeLookupEntry tar.blocks tar.infoTree around.stray text
  | none => (children tar.infoTree none).head?

/-- `do_get_file_info`, on the archive that `ensure_tarfile` gives: the node and what is told of it. -/
def doGetFileInfo (around : Around) (guess : MimeGuess) (tar : TarFile) (uriString : Bytes) (text : Option Bytes)
    (options : InfoOptions) : Except VfsResult (Nat × FileInfo) :=
  match namedNode around tar text with
  | none => .error .notFound
  | some node =>
    .ok (node, memberInfo around tar.blocks (dataOf tar.blocks tar.infoTree node) guess uriString options)

end GnomeVfs.Tar
