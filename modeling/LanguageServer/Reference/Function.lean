import LanguageServer.Script.Expr

/-! # Documented functions

What is known of a function of the language, its signature line and its documentation in
Markdown. -/

namespace LanguageServer.Reference

open Script (Callee)

/-- A parameter or a return value of a function; the description may be empty. -/
structure Value where
  name : String
  type : String
  description : String
  deriving DecidableEq, Repr

/-- What is known of a function: how it is called, what it does, what it takes and what it returns.
-/
structure Function where
  callee : Callee
  description : String
  parameters : List Value
  results : List Value
  deriving DecidableEq, Repr

namespace Function

/-- The types a function returns, as its signature lists them. -/
def resultTypes (f : Function) : String :=
  match f.results with
  | [] => ""
  | [single] => " " ++ single.type
  | many => " (" ++ ", ".intercalate (many.map (·.type)) ++ ")"

/-- The signature line: name, parameters and types of the results. -/
def signature (f : Function) : String :=
  "func " ++ f.callee.name ++ "(" ++
    ", ".intercalate (f.parameters.map fun p => p.name ++ " " ++ p.type) ++ ")" ++ f.resultTypes

/-- Source text set off from the text around it. -/
def fenced (code : String) : String := "```dlitescript\n" ++ code ++ "\n```"

/-- A piece of source text with its description on a line below it, if there is one. -/
def described (code description : String) : String :=
  fenced code ++ "\n" ++ if description = "" then "" else description ++ "\n"

/-- The documentation: signature, description, then a section for parameters and one for return
values where there are any. -/
def documentation (f : Function) : String :=
  let parameters := f.parameters.map fun p => described (p.name ++ " " ++ p.type) p.description
  let results := f.results.map fun r => described r.type r.description
  fenced f.signature ++ "\n\n" ++ f.description ++ "\n\n" ++
    (if parameters.isEmpty then "" else "**Parameters:**\n" ++ String.join parameters) ++
    (if results.isEmpty then "" else "\n**Return Values:**\n" ++ String.join results)

end Function

/-- The first function of a table that is called like this. -/
def lookup? (table : List Function) (callee : Callee) : Option Function :=
  table.find? fun f => f.callee = callee

end LanguageServer.Reference
