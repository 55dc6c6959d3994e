import LanguageServer.Reference.Builtin
import LanguageServer.Script.Parse
import LanguageServer.Script.Tree

/-! # The language served

What the server needs to know of a language: how a text becomes a tree of nodes, and which functions
are documented. `Language.script` is the language of the server. -/

namespace LanguageServer

open Script (Expr ParseError)

/-- A language with nodes of type `α`: how its texts are parsed, and what its functions do. -/
structure Language (α : Type) where
  parse : String → Except ParseError (Script.Tree α)
  functions : List Reference.Function

/-- Scripts, with the functions given as their documented ones. -/
def Language.script (functions : List Reference.Function) : Language Expr :=
  ⟨fun text => (Script.parse text).map Expr.tree, functions⟩

/-- Scripts with their built-in functions. -/
def Language.builtin : Language Expr := .script Reference.builtins

end LanguageServer
