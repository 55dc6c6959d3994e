import LanguageServer.Launch.Threshold
import LanguageServer.Launch.Value
import LanguageServer.Text.Pieces
import LanguageServer.Text.Utf8

/-! # Directives of a log filter

A directive says which events it is for and what of them is let through:
`target[span{detail}]=level`, where each part may be left out. It is for the events whose source has
a name that starts with the target, and that have the detail. A directive that names a span, or
gives the value of a detail, is for what happens within spans; this program has none, so it is for
no event.

The places of the parts are looked for in the text without the blanks at its ends, and counted in
bytes from the start of the whole text; such a place may fall inside a character. -/

namespace LanguageServer

/-- A detail that a directive asks for, and the value or pattern it must have; any if absent. -/
structure Detail where
  name : List Char
  value : Option (List Char)
  deriving DecidableEq, Repr

/-- The detail that a text spells. -/
def Detail.ofText? (cs : List Char) : Option Detail :=
  match Text.pieces '=' cs with
  | [] | [[]] => none
  | [name] => some ⟨name, none⟩
  | name :: value :: _ => if Value.isValue value then some ⟨name, some value⟩ else none

/-- A directive of a filter: its threshold is for the sources whose names start with `target`, for
events in the span and with the detail that it names. What is absent asks for nothing. -/
structure Directive where
  target : Option (List Char) := none
  span : Option (List Char) := none
  detail : Option Detail := none
  threshold : Threshold := some .trace
  deriving DecidableEq, Repr

/-- Why a text is no directive: it has another form, or a place in it falls inside a character. -/
inductive DirectiveFault
  | malformed
  | torn
  deriving DecidableEq, Repr

namespace Directive

/-! ### Reading -/

/-- The text from one place to another. -/
def excerpt (cs : List Char) (start stop : Nat) : Except DirectiveFault (List Char) :=
  match (Text.Utf8.cut? start cs).bind fun cut => Text.Utf8.cut? (stop - start) cut.2 with
  | some cut => .ok cut.1
  | none => .error .torn

/-- The text from a place on. -/
def remainder (cs : List Char) (start : Nat) : Except DirectiveFault (List Char) :=
  match Text.Utf8.cut? start cs with
  | some cut => .ok cut.2
  | none => .error .torn

/-- The threshold after the equals sign; all is let through if there is no text. -/
def readThreshold (cs : List Char) : Except DirectiveFault Threshold :=
  if cs.isEmpty then .ok (some .trace)
  else
    match Threshold.ofText? cs with
    | some threshold => .ok threshold
    | none => .error .malformed

/-- Reads the end of the directive `cs`, of which `rest` is left at `place`. -/
def readEnd (cs : List Char) (place : Nat) (d : Directive) (rest : List Char) :
    Except DirectiveFault Directive :=
  match rest with
  | [] => .ok d
  | '=' :: _ => do return { d with threshold := ← readThreshold (← remainder cs (place + 1)) }
  | _ => .error .malformed

/-- Reads a detail and what follows. -/
def readDetail (cs : List Char) (place : Nat) (d : Directive) (rest : List Char) :
    Except DirectiveFault Directive :=
  let text := rest.takeWhile (· ≠ '\x7d')
  let stop := place + Text.Utf8.size text
  match rest.drop text.length with
  | [] => .error .malformed
  | _ :: rest => do
    match Detail.ofText? (← excerpt cs place stop), rest with
    | some detail, ']' :: rest => readEnd cs (stop + 2) { d with detail := some detail } rest
    | _, _ => .error .malformed

/-- Reads what stands in brackets, and what follows. -/
def readBrackets (cs : List Char) (place : Nat) (d : Directive) (rest : List Char) :
    Except DirectiveFault Directive :=
  let text := rest.takeWhile fun c => c ≠ ']' && c ≠ '\x7b'
  let stop := place + Text.Utf8.size text
  match rest.drop text.length with
  | [] => .error .malformed
  | ']' :: rest => do
    readEnd cs (stop + 1) { d with span := some (← excerpt cs place stop) } rest
  | _ :: rest => do
    let span ← excerpt cs place stop
    readDetail cs (stop + 1) (if span.isEmpty then d else { d with span := some span }) rest

/-- Whether a directive may start with the character. -/
def isStart (c : Char) : Bool :=
  c = '-' || c = ':' || c = '_' || Text.isLetter c || Text.isNumeral c

/-- Reads a directive that starts with a word: alone it is a threshold or a target. -/
def readWord (cs : List Char) (rest : List Char) : Except DirectiveFault Directive :=
  let word := rest.takeWhile fun c => c ≠ '=' && c ≠ '['
  let stop := Text.Utf8.size word
  match rest.drop word.length with
  | [] =>
    match Threshold.ofText? cs with
    | some threshold => .ok { threshold }
    | none => .ok { target := some cs }
  | '[' :: rest => do
    readBrackets cs (stop + 1) { target := some (← excerpt cs 0 stop) } rest
  | rest => do readEnd cs stop { target := some (← excerpt cs 0 stop) } rest

/-- **The directive that a text spells.** -/
def ofText (cs : List Char) : Except DirectiveFault Directive :=
  match Text.trim cs with
  | [] => .error .malformed
  | '[' :: rest => readBrackets cs 1 {} rest
  | c :: rest => if isStart c then readWord cs (c :: rest) else .error .malformed

/-! ### Choosing -/

/-- Whether the directive is for an event. -/
def isFor (d : Directive) (e : Event) : Bool :=
  d.span.isNone && (d.target.getD []).isPrefixOf e.source.path.toList &&
    d.detail.all fun detail =>
      detail.value.isNone && e.fieldNames.contains (String.ofList detail.name)

/-- How long the target is: one that is absent is shorter than any. -/
def targetLength (d : Directive) : Nat :=
  match d.target with
  | none => 0
  | some target => target.length + 1

/-- The name of the detail that is asked for, empty if there is none. -/
def detailName (d : Directive) : List Char := (d.detail.map (·.name)).getD []

/-- Whether `d` is wider than `c`: it has the shorter target or, with targets of one length, the
detail with the earlier name, if it has one at all. -/
def isWider (d c : Directive) : Bool :=
  d.targetLength < c.targetLength ||
    (d.targetLength = c.targetLength &&
      d.detailName.lex c.detailName fun a b => a.toNat < b.toNat)

/-- The narrower of two directives, the second of two equal ones. -/
def narrower (chosen : Option Directive) (d : Directive) : Option Directive :=
  match chosen with
  | some c => if d.isWider c then some c else some d
  | none => some d

end Directive

end LanguageServer
