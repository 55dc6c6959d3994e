import LanguageServer.Launch.Program

/-! # The command

The program on the standard streams. Messages are answered as soon as they are complete; everything
that is decided here is decided by `Program`. -/

namespace LanguageServer.Command

/-- Where log lines go, which events are let through, and whether lines are written as JSON. -/
structure Logger where
  stream : IO.FS.Stream
  filter : LogFilter
  json : Bool

/-- The line of an event. -/
def line (json : Bool) (e : Event) : String :=
  if json then
    (Json.object [("fields", Json.ofMembers (("message", .string e.message) ::
      e.fields.map fun f => (f.1, .string f.2))), ("level", .string e.level.name),
      ("target", .string e.source.path)]).print
  else
    e.level.name ++ " " ++ e.source.path ++ ": " ++ e.message ++
      String.join (e.fields.map fun f => " " ++ f.1 ++ "=" ++ Text.quoted f.2)

/-- Writes the events on the way to a value. -/
def Logger.emit {α : Type} (logger : Logger) (x : Logged α) : IO α := do
  for e in x.events do
    if logger.filter.admits e then
      logger.stream.putStr (line logger.json e ++ "\n")
  logger.stream.flush
  return x.value

/-- What keeps a file from being opened. -/
def openFailure : IO.Error → OpenFailure
  | .noFileOrDirectory .. => .missing
  | .inappropriateType _ code _ => if code = 20 then .notDirectory else .isDirectory
  | .invalidArgument _ 36 _ => .nameTooLong
  | e => .reported (toString e)

/-- The number of this process. -/
def processId : IO String := do
  let status ← IO.FS.readFile "/proc/self/stat"
  return String.ofList (status.toList.takeWhile Char.isDigit)

/-- Opens the log. -/
def openLogger (config : LogConfig) (filter : LogFilter) : IO Logger := do
  let stream ← match config.file with
    | none => IO.getStderr
    | some file => IO.FS.Stream.ofHandle <$> IO.FS.Handle.mk file .append
  return ⟨stream, filter, config.json⟩

/-- Prints what a session has written, and empties its sink. -/
def deliver (s : Session) : IO Session := do
  let stdout ← IO.getStdout
  stdout.write ⟨s.sink.stored.toArray⟩
  stdout.flush
  return { s with sink := .unlimited }

/-- Serves the bytes `buffer` and all that follow them. -/
partial def loop (logger : Logger) (s : Session) (buffer : List UInt8) :
    IO (Session × Except FramingError Unit) := do
  match Frame.arrival buffer with
  | .message body rest =>
    let (s, ending) ← logger.emit (s.serveOne .builtin body)
    let s ← deliver s
    match ending with
    | some result => return (s, result)
    | none => loop logger s rest
  | .broken e => return (s, .error e)
  | .unfinished =>
    let chunk ← (← IO.getStdin).read 65536
    if chunk.isEmpty then logger.emit (s.serveFrom .builtin none buffer)
    else loop logger s (buffer ++ chunk.toList)

/-- Serves the standard input stream. -/
def serve (logger : Logger) : IO Ending := do
  logger.emit Program.greeting
  logger.emit Session.start
  let (s, result) ← loop logger (.fresh .unlimited) []
  logger.emit (Program.farewell s.handler.signal result)

/-- The variables that the program looks at. -/
def environment : IO Environment := do
  let names := [LogConfig.levelVariable, LogConfig.fileVariable, LogConfig.uniqueVariable,
    LogConfig.jsonVariable]
  let values ← names.mapM fun name => return (name, ← IO.getEnv name)
  return fun name => (values.lookup name).join

/-- Runs the program with the given arguments. -/
def run (args : List String) : IO Ending := do
  match Options.read args with
  | .error stop =>
    IO.print stop.output
    return ⟨stop.status, stop.complaint⟩
  | .ok options =>
    let config := options.logConfig (← processId) (← environment)
    match LogFilter.ofText? config.level with
    | none => return Program.withoutFilter
    | some filter =>
      match ← (openLogger config filter).toBaseIO with
      | .error e => return Program.withoutLog (openFailure e)
      | .ok logger => serve logger

end LanguageServer.Command

/-- Serves a client on the standard streams. -/
def main (args : List String) : IO UInt32 := do
  let ending ← LanguageServer.Command.run args
  IO.eprint ending.complaint
  return UInt32.ofNat ending.status
