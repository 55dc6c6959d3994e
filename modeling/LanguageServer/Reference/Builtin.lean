import LanguageServer.Reference.Function

/-! # The built-in functions

The functions every script can call: output and control without a package, and the package
`math`. -/

namespace LanguageServer.Reference

/-- The one number that a function takes. -/
def singleNumber : List Value := [⟨"num", "number", "The input number."⟩]

/-- The numbers that a function takes. -/
def numberList : List Value :=
  [⟨"...nums", "number", "The numbers to process. At least two numbers are required."⟩]

/-- The number that a function returns. -/
def numberResult : List Value := [⟨"result", "number", "The computed number."⟩]

/-- A format and the values to format. -/
def formatted : List Value :=
  [⟨"format", "string", "The format string."⟩, ⟨"...args", "any", "The arguments to format."⟩]

/-- A function of the package `math` that returns a number. -/
def mathematical (name description : String) (parameters : List Value) : Function :=
  ⟨⟨"math", name⟩, description, parameters, numberResult⟩

/-- The built-in functions. -/
def builtins : List Function :=
  [⟨⟨"", "printf"⟩, "Prints a formatted string.", formatted, []⟩,
   ⟨⟨"", "sprintf"⟩, "Returns a formatted string.", formatted,
     [⟨"result", "string", "The formatted string."⟩]⟩,
   ⟨⟨"", "dump"⟩, "Outputs a formatted representation of the provided value.",
     [⟨"...values", "any", "The values to dump."⟩], []⟩,
   ⟨⟨"", "exit"⟩, "Exits the running script with a given exit code.",
     [⟨"code", "number", "The exit code to return."⟩], []⟩,
   mathematical "abs" "Returns the absolute value of a number." singleNumber,
   mathematical "ceil" "Rounds a number up to the nearest integer." singleNumber,
   mathematical "floor" "Rounds a number down to the nearest integer." singleNumber,
   mathematical "round" "Rounds a number to the nearest integer." singleNumber,
   mathematical "sqrt" "Returns the square root of a number." singleNumber,
   mathematical "max" "Returns the largest of the provided numbers." numberList,
   mathematical "min" "Returns the smallest of the provided numbers." numberList]

end LanguageServer.Reference
