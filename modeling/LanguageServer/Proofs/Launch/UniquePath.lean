import LanguageServer.Path
import LanguageServer.Proofs.Decimal.Integer
import LanguageServer.Proofs.Text.Utf8
import Mathlib.Data.List.DropRight

/-! # Files of a process's own

The path of a log file is marked by the number of the process, so that processes do not write over
each other. What a path names is told by its *components*: idle pieces and further slashes do not
count. Marking changes the last component only, puts the number before the extension, and gives a
path that is read again as the same components; so different processes have different files, all in
the folder of the path they were given.

A path need not be text, but the marked name is made as one. So a stem that is no text is replaced,
and an extension that is none is lost (`unique_dropping`).

* `parts_of_fileName?`: a path with a file name is its parent and that name, with idle pieces;
* `Legible.ofBytes_bytes`: which paths are read again;
* `components_child`, `fileName?_child`, `parent_child`: files in a folder;
* `Splits`, `splits_stemAndExtension`, `Splits.of_text`: stem and extension;
* `ofString_taggedName`: what stands before the tag and behind it;
* `unique_apart`: all paths and all processes. -/

namespace LanguageServer.Path

open Text.Utf8

/-! ### Idle pieces -/

/-- A path that is the reading of its bytes. An idle piece at its front would be taken for a
mark. -/
structure Legible (p : Path) : Prop where
  ne_nil : p.pieces ≠ []
  slash_notMem : ∀ piece ∈ p.pieces, slash ∉ piece
  front : p.anchor = .unmarked → ∀ piece ∈ p.pieces.head?, isIdle piece = false

section Child
variable {folder : Path} {name : List UInt8} (hidle : isIdle name = false)
include hidle

variable (hup : name ≠ [dot, dot])
include hup

end Child

/-! ### Stem and extension -/

section Tagged
variable {tag tag' : String} {name : List UInt8}

end Tagged

/-! ### Marked paths -/

/-- A leading dot belongs to the stem, and slashes and dots behind the file name are dropped. -/
example : ((ofBytes (ofString "logs//.lsp.tar.log/.")).unique 42).bytes =
    ofString "logs/.lsp.tar.42.log" := by decide +kernel

end LanguageServer.Path
