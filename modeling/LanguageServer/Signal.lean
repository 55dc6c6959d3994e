/-! # The exit signal

The signal is armed once, by the first request to exit; what it records then stays. It is clean if a
shutdown was requested before. -/

namespace LanguageServer

/-- Whether an exit was requested, and how. -/
inductive Signal
  | idle
  | armed (clean : Bool)
  deriving DecidableEq, Repr

namespace Signal

/-- Arms the signal, and says whether it was idle. -/
def trigger (clean : Bool) : Signal → Signal × Bool
  | idle => (armed clean, true)
  | armed first => (armed first, false)

/-- Whether the signal is armed. -/
def isArmed : Signal → Bool
  | idle => false
  | armed _ => true

/-- The status the process ends with: zero only after a clean exit. -/
def exitCode : Signal → Nat
  | armed true => 0
  | armed false | idle => 1

end Signal

end LanguageServer
