import LanguageServer.Path

/-! # The configuration of the log

Where the log goes, how it is written and what it holds: by default, by the variables of the
environment, and by overrides. -/

namespace LanguageServer

/-- The variables of an environment. -/
abbrev Environment := String → Option String

/-- How the log is kept: the text of its filter, the file it goes to, which is the standard error
stream if absent, and whether lines are written as JSON. -/
structure LogConfig where
  level : String := "info"
  file : Option String := none
  json : Bool := false
  deriving DecidableEq, Repr

namespace LogConfig

/-- The variable that holds the filter. -/
def levelVariable : String := "RUST_LOG"

/-- The variable that names the log file. -/
def fileVariable : String := "DLITE_LSP_LOG_FILE"

/-- The variable that asks for a log file of the process's own. -/
def uniqueVariable : String := "DLITE_LSP_LOG_UNIQUE"

/-- The variable that asks for lines of JSON. -/
def jsonVariable : String := "DLITE_LSP_LOG_JSON"

/-- Whether a variable is switched on. -/
def isOn (env : Environment) (name : String) : Bool := env name == some "true"

/-- The configuration by an environment, in a process that marks its own files by `tag`. -/
def ofEnvironment (tag : String) (env : Environment) : LogConfig where
  level := (env levelVariable).getD "info"
  file := (env fileVariable).map fun file =>
    if isOn env uniqueVariable then
      String.ofList ((Path.ofText file.toList).tagged tag).text
    else file
  json := isOn env jsonVariable

/-- The configuration with what is given in place of what it has. -/
def override (c : LogConfig) (level file : Option String) (json : Bool) : LogConfig :=
  ⟨level.getD c.level, file <|> c.file, json || c.json⟩

end LogConfig

end LanguageServer
