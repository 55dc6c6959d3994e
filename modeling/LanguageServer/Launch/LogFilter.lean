import LanguageServer.Launch.Directive

/-! # Log filters

A filter is a list of directives between commas. Of the directives for an event the narrowest
decides whether it is logged, and of two equal ones the later; an event that no directive is for is
not logged. -/

namespace LanguageServer

/-- What is logged, as a list of directives in the order they were given. -/
structure LogFilter where
  directives : List Directive
  deriving DecidableEq, Repr

namespace LogFilter

/-- The filter that lets all events through up to the level `info`. -/
def standard : LogFilter := ⟨[{ threshold := some .info }]⟩

/-- Reads the directives between commas; empty ones are left out. -/
def read (cs : List Char) : Except DirectiveFault (List Directive) :=
  ((Text.pieces ',' cs).filter fun piece => !piece.isEmpty).mapM Directive.ofText

/-- **The filter that a text spells;** a text that is no filter stands for the standard one. It is
absent if a place in the text falls inside a character. -/
def ofText? (text : String) : Option LogFilter :=
  match read text.toList with
  | .ok directives => some ⟨directives⟩
  | .error .malformed => some standard
  | .error .torn => none

/-- The directive that decides on an event. -/
def directive? (f : LogFilter) (e : Event) : Option Directive :=
  (f.directives.filter (·.isFor e)).foldl Directive.narrower none

/-- **Whether an event is logged.** -/
def admits (f : LogFilter) (e : Event) : Bool :=
  (f.directive? e).any fun d => d.threshold.admits e.level

end LogFilter

end LanguageServer
