import LanguageServer.Launch.LogFilter
import LanguageServer.Launch.Options
import LanguageServer.Session

/-! # The program

The whole program as a function: from its arguments, its environment and the bytes on its standard
input stream to the status it ends with, what it prints and what it logs. `serve` is the part after
the log is set up; its status is that of `farewell`. -/

namespace LanguageServer

/-- Why a log file cannot be opened. -/
inductive OpenFailure
  | missing
  | isDirectory
  | notDirectory
  | nameTooLong
  | reported (reason : String)
  deriving DecidableEq, Repr

/-- The wording of a failure. -/
def OpenFailure.message : OpenFailure → String
  | missing => "No such file or directory (os error 2)"
  | isDirectory => "Is a directory (os error 21)"
  | notDirectory => "Not a directory (os error 20)"
  | nameTooLong => "File name too long (os error 36)"
  | reported reason => reason

/-- How the program ends: the status of the process, and what is printed on the standard error
stream, apart from the log. -/
structure Ending where
  status : Nat
  complaint : String
  deriving DecidableEq, Repr

/-- All that a run of the program leaves behind: how it ends, what is printed on the standard output
stream, how the log was kept, if it was set up, and what was logged. -/
structure Outcome where
  ending : Ending
  output : List UInt8
  logging : Option LogConfig := none
  log : List Event := []
  deriving DecidableEq, Repr

namespace Program

/-- How a run ends whose log cannot be set up. -/
def withoutLog (failure : OpenFailure) : Ending :=
  ⟨1, "Failed to initialize logging: " ++ failure.message ++ "\n"⟩

/-- How a run ends whose log filter has a place inside a character. -/
def withoutFilter : Ending := ⟨101, ""⟩

/-- What is logged before the first message. -/
def greeting : Logged Unit := do
  Logged.log .program .info ("Starting " ++ serverName ++ " language server v" ++ serverVersion)
  Logged.log .program .info (serverName ++ " language server ready and listening on stdio")

/-- How a run ends whose stream was served with the given result. -/
def farewell (signal : Signal) (result : Except FramingError Unit) : Logged Ending :=
  match result, signal.isArmed with
  | .error e, _ => do
    Logged.log .program .error ("Server stopped: " ++ e.message)
    return ⟨1, "Error: Framing(" ++ e.detail ++ ")\n"⟩
  | .ok (), true => pure ⟨signal.exitCode, ""⟩
  | .ok (), false => do
    Logged.log .program .info "Input closed before exit, shutting down"
    return ⟨0, ""⟩

/-- **Serves the standard input stream:** how the run ends, and what it prints. -/
def serve (input : List UInt8) : Logged (Ending × List UInt8) := do
  greeting
  let (s, result) ← (Session.fresh .unlimited).serve .builtin none input
  let ending ← farewell s.handler.signal result
  return (ending, s.sink.stored)

/-- **Runs the program,** where `openLog` says what keeps a log file from being opened, and `tag`
marks the files of this process. -/
def run (openLog : String → Option OpenFailure) (tag : String) (env : Environment)
    (args : List String) (input : List UInt8) : Outcome :=
  match Options.read args with
  | .error stop =>
    { ending := ⟨stop.status, stop.complaint⟩
      output := Text.Utf8.ofString stop.output }
  | .ok options =>
    let config := options.logConfig tag env
    match LogFilter.ofText? config.level, config.file.bind openLog with
    | none, _ => { ending := withoutFilter, output := [] }
    | some _, some failure => { ending := withoutLog failure, output := [] }
    | some filter, none =>
      let served := serve input
      { ending := served.value.1
        output := served.value.2
        logging := some config
        log := served.events.filter filter.admits }

end Program

end LanguageServer
