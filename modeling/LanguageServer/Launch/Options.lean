import LanguageServer.Launch.LogConfig

/-! # The command line

Arguments are read from left to right. An option that takes a value is closed by the next flag or by
the end: only then is it asked whether it has a value, whether it was given before and whether the
value will do, so an unknown argument after it is reported first. Asking for help or for the version
ends the reading at once. What two options say together is asked at the very end. -/

namespace LanguageServer

/-- What is wrong with a command line. -/
inductive UsageError
  | unknownArgument
  | conflict
  | invalidValue
  | unneededValue
  deriving DecidableEq, Repr

/-- Why the reading of a command line stops before the program runs. -/
inductive Stop
  | help
  | version
  | usage (cause : UsageError)
  deriving DecidableEq, Repr

namespace Stop

/-- What `--help` prints. -/
def helpText : String :=
  "A language server for DLiteScript speaking Content-Length framed JSON-RPC over stdio\n\n" ++
  "Usage: dlite-lsp [OPTIONS]\n\n" ++
  "Options:\n" ++
  "      --log-level <LEVEL>  Log level (overrides RUST_LOG env var)\n" ++
  "      --log-file <FILE>    Log file path (overrides DLITE_LSP_LOG_FILE env var)\n" ++
  "      --log-json           Emit logs as JSON lines (same as DLITE_LSP_LOG_JSON=true)\n" ++
  "      --debug              Shortcut for --log-level debug\n" ++
  "  -h, --help               Print help\n" ++
  "  -V, --version            Print version\n"

/-- What `--version` prints. -/
def versionText : String := "dlite-lsp 0.1.0\n"

/-- What is printed on the standard output stream. -/
def output : Stop → String
  | help => helpText
  | version => versionText
  | usage _ => ""

/-- What is printed on the standard error stream. -/
def complaint : Stop → String
  | help | version => ""
  | usage .unknownArgument => "error: unexpected argument found\n"
  | usage .conflict => "error: an argument cannot be used with another one\n"
  | usage .invalidValue => "error: a value is required\n"
  | usage .unneededValue => "error: unexpected value for a flag\n"

/-- The status the process ends with. -/
def status : Stop → Nat
  | help | version => 0
  | usage _ => 2

end Stop

/-- What the command line asks for: the filter of the log, the file it goes to, lines of JSON, and a
log for debugging. -/
structure Options where
  level : Option String := none
  file : Option String := none
  json : Bool := false
  debug : Bool := false
  deriving DecidableEq, Repr

namespace Options

/-! ### Arguments and flags -/

/-- An option that takes a value. -/
inductive Valued
  | level | file
  deriving DecidableEq, Repr

/-- An option that takes none. -/
inductive Switch
  | json | debug | help | version
  deriving DecidableEq, Repr

/-- What a flag stands for. -/
inductive Flag
  | valued (option : Valued)
  | switch (option : Switch)
  deriving DecidableEq, Repr

/-- The flag with a long name. -/
def Flag.ofLong? (name : String) : Option Flag :=
  match name with
  | "log-level" => some (.valued .level)
  | "log-file" => some (.valued .file)
  | "log-json" => some (.switch .json)
  | "debug" => some (.switch .debug)
  | "help" => some (.switch .help)
  | "version" => some (.switch .version)
  | _ => none

/-- The flag with a short name. -/
def Flag.ofShort? (name : Char) : Option Flag :=
  match name with
  | 'h' => some (.switch .help)
  | 'V' => some (.switch .version)
  | _ => none

/-- What an argument looks like. -/
inductive Word
  | divider
  | long (name : String) (value : Option String)
  | short (first : Char)
  | plain (text : String)
  deriving DecidableEq, Repr

/-- The value after the sign `=`, if that comes next. -/
def attached : List Char → Option String
  | '=' :: value => some (String.ofList value)
  | _ => none

/-- What an argument looks like; of several short flags only the first is ever looked at. -/
def Word.ofText (text : String) : Word :=
  match text.toList with
  | ['-', '-'] => .divider
  | '-' :: '-' :: rest =>
    .long (String.ofList (rest.takeWhile (· ≠ '='))) (attached (rest.dropWhile (· ≠ '=')))
  | '-' :: c :: _ => .short c
  | _ => .plain text

/-! ### Setting options -/

/-- The option with a value, unless it was given before or the value will not do. -/
def set (o : Options) (option : Valued) (value : String) : Except Stop Options :=
  match option with
  | .level => if o.level.isSome then .error (.usage .conflict) else .ok { o with level := value }
  | .file =>
    if o.file.isSome then .error (.usage .conflict)
    else if value.isEmpty then .error (.usage .invalidValue)
    else .ok { o with file := value }

/-- The option switched on, unless it was given before; help and version stop the reading. -/
def raise (o : Options) : Switch → Except Stop Options
  | .json => if o.json then .error (.usage .conflict) else .ok { o with json := true }
  | .debug => if o.debug then .error (.usage .conflict) else .ok { o with debug := true }
  | .help => .error .help
  | .version => .error .version

/-! ### Reading -/

/-- The state of reading: what is settled, and the option that is still open, with its value as soon
as there is one. -/
structure Reading where
  options : Options := {}
  pending : Option (Valued × Option String) := none
  deriving DecidableEq, Repr

namespace Reading

/-- What is settled once the open option is closed. -/
def close (r : Reading) : Except Stop Options :=
  match r.pending with
  | none => .ok r.options
  | some (_, none) => .error (.usage .invalidValue)
  | some (option, some value) => r.options.set option value

/-- The state after a flag, with the value attached to it. -/
def flag (r : Reading) (f : Flag) (value : Option String) : Except Stop Reading :=
  match f, value with
  | .valued option, none => r.close.map fun o => ⟨o, some (option, none)⟩
  | .valued option, some value =>
    (r.close.bind (·.set option value)).map fun o => ⟨o, none⟩
  | .switch _, some _ => .error (.usage .unneededValue)
  | .switch option, none => (r.close.bind (·.raise option)).map fun o => ⟨o, none⟩

/-- The state after an argument other than the divider. -/
def next (r : Reading) : Word → Except Stop Reading
  | .long name value =>
    match Flag.ofLong? name with
    | some f => r.flag f value
    | none => .error (.usage .unknownArgument)
  | .short first =>
    match Flag.ofShort? first with
    | some f => r.flag f none
    | none => .error (.usage .unknownArgument)
  | .plain text =>
    match r.pending with
    | some (option, none) => .ok { r with pending := some (option, some text) }
    | _ => .error (.usage .unknownArgument)
  | .divider => .ok r

/-- What the command line asks for once all arguments are read. -/
def finish (r : Reading) : Except Stop Options := do
  let o ← r.close
  if o.debug && o.level.isSome then .error (.usage .conflict) else .ok o

/-- The rest of the arguments; after the divider there may be none. -/
def read (r : Reading) : List String → Except Stop Options
  | [] => r.finish
  | a :: rest =>
    match Word.ofText a with
    | .divider => if rest.isEmpty then r.finish else .error (.usage .unknownArgument)
    | word =>
      match r.next word with
      | .ok r => r.read rest
      | .error stop => .error stop

end Reading

/-- **What the arguments ask for.** -/
def read (args : List String) : Except Stop Options := Reading.read {} args

/-- The configuration of the log: what the options say, else what the environment says. -/
def logConfig (o : Options) (tag : String) (env : Environment) : LogConfig :=
  (LogConfig.ofEnvironment tag env).override
    (if o.debug then some "debug" else o.level) o.file o.json

end Options

end LanguageServer
