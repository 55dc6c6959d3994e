import LanguageServer.Document.Basic
import LanguageServer.Json.Value
import LanguageServer.Reference.Function
import LanguageServer.Script.Tree

/-! # Hover

What is shown for the node under the cursor: the documentation of a known function for a call of it,
and the kind and the source text of the node otherwise, with the range that the node covers. -/

namespace LanguageServer

open Script (Syntactic)

/-- A Markdown text about a range of a document. -/
structure Hover where
  contents : String
  range : Range
  deriving DecidableEq, Repr

namespace Hover

variable {α : Type} [Syntactic α]

/-- The text about a node. -/
def describe (functions : List Reference.Function) (node : α) : String :=
  match (Syntactic.callee? node).bind (Reference.lookup? functions) with
  | some f => f.documentation
  | none =>
    "**" ++ Syntactic.kind node ++ "**\n\n" ++ Reference.Function.fenced (Syntactic.render node)

/-- The text about a node of a document and the range it covers. -/
def ofNode (functions : List Reference.Function) (d : Document) (node : α) : Hover :=
  ⟨describe functions node,
    d.positionAt (Syntactic.span node).start, d.positionAt (Syntactic.span node).stop⟩

end Hover

/-- A position as JSON. -/
def Position.toJson (p : Position) : Json :=
  .ofMembers [("line", .integer p.line.toNat), ("character", .integer p.character.toNat)]

/-- A range as JSON. -/
def Range.toJson (r : Range) : Json :=
  .ofMembers [("start", r.start.toJson), ("end", r.stop.toJson)]

/-- The text and its range as JSON. -/
def Hover.toJson (h : Hover) : Json :=
  .ofMembers
    [("contents", .ofMembers [("kind", .string "markdown"), ("value", .string h.contents)]),
     ("range", h.range.toJson)]

end LanguageServer
