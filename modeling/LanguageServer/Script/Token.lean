import LanguageServer.Script.Operator
import LanguageServer.Script.ParseError
import LanguageServer.Script.Span
import LanguageServer.Text.Blank
import LanguageServer.Text.Letter
import LanguageServer.Text.Numeral

/-! # Tokens

A text is cut into tokens from left to right. Between two tokens stands a *gap*: white space other
than the line end, then possibly a comment that reaches to the end of its line. Where a gap ends,
the first character decides the kind of the token and `lexeme` how many characters after it belong
to it. `tokens` is the whole cut; it ends with the token `finish`, which covers no character. -/

namespace LanguageServer.Script

/-- What a token is. -/
inductive Token.Kind
  | identifier (name : String)
  | number (digits : String)
  | text (contents : String)
  | boolean (value : Bool)
  | null
  | operator (op : Operator)
  | openParen
  | closeParen
  | comma
  | dot
  | newline
  | finish
  deriving DecidableEq, Repr

/-- A token and the characters it covers. -/
structure Token where
  kind : Token.Kind
  span : Span
  deriving DecidableEq, Repr

namespace Token

/-! ### Gaps -/

/-- White space inside a line. -/
def isSpacing (c : Char) : Bool := Text.isBlank c && c != '\n'

/-- Whether the character does not end its line. -/
def inLine (c : Char) : Bool := c != '\n'

/-- The number of characters before the next token: white space, then a comment if one starts. -/
def gap (cs : List Char) : Nat :=
  let blanks := (cs.takeWhile isSpacing).length
  match cs.drop blanks with
  | '/' :: '/' :: comment => blanks + 2 + (comment.takeWhile inLine).length
  | _ => blanks

/-! ### Lexemes -/

/-- Characters that may continue a word. -/
def isWordChar (c : Char) : Bool := Text.isLetter c || Text.isNumeral c || c == '_'

/-- Characters that may start a word. -/
def startsWord (c : Char) : Bool := Text.isLetter c || c == '_'

/-- The character that a backslash and `c` stand for. -/
def unescape? : Char → Option Char
  | 'n' => some '\n'
  | 't' => some '\t'
  | 'r' => some '\r'
  | '"' => some '"'
  | '\\' => some '\\'
  | _ => none

/-- The rest of a quoted text: its contents and the number of characters up to and including the
closing quote. `width` characters with the contents `read`, last first, have been read. A fault
comes with its distance from the opening quote. -/
def quotedText (width : Nat) (read : List Char) : List Char → Except (Fault × Nat) (String × Nat)
  | [] => .error (.unterminatedString, 0)
  | '\n' :: _ => .error (.unterminatedString, 0)
  | '"' :: _ => .ok (String.ofList read.reverse, width + 1)
  | ['\\'] => .error (.invalidEscape, width + 1)
  | '\\' :: e :: cs =>
    match unescape? e with
    | some c => quotedText (width + 2) (c :: read) cs
    | none => .error (.invalidEscape, width + 1)
  | c :: cs => quotedText (width + 1) (c :: read) cs

/-- The number of characters that continue a number: digits, then a point and digits if a digit
follows the point. -/
def numberTail (cs : List Char) : Nat :=
  let whole := (cs.takeWhile Char.isDigit).length
  match cs.drop whole with
  | '.' :: d :: fraction =>
    if d.isDigit then whole + 2 + (fraction.takeWhile Char.isDigit).length else whole
  | _ => whole

/-- The kind of a word: a constant of the language or a name. -/
def ofWord (word : String) : Kind :=
  if word = "true" then .boolean true
  else if word = "false" then .boolean false
  else if word = "null" then .null
  else .identifier word

/-- **The token at the front of `c :: cs`:** its kind and how many characters of `cs` belong to it.
A fault comes with its distance from `c`. -/
def lexeme (c : Char) (cs : List Char) : Except (Fault × Nat) (Kind × Nat) :=
  if c = '\n' then .ok (.newline, 0)
  else if c = '(' then .ok (.openParen, 0)
  else if c = ')' then .ok (.closeParen, 0)
  else if c = ',' then .ok (.comma, 0)
  else if c = '.' then .ok (.dot, 0)
  else if c = '"' then (quotedText 0 [] cs).map fun (contents, more) => (.text contents, more)
  else if c.isDigit then
    let more := numberTail cs
    .ok (.number (String.ofList (c :: cs.take more)), more)
  else if startsWord c then
    let more := (cs.takeWhile isWordChar).length
    .ok (ofWord (String.ofList (c :: cs.take more)), more)
  else
    match Operator.readFrom? (c :: cs) with
    | some op => .ok (.operator op, op.symbol.length - 1)
    | none => .error (.unexpectedCharacter c, 0)

/-! ### The whole text -/

/-- The tokens of `cs`, which starts at offset `pos`, after the tokens `read`, last first. -/
def scan (pos : Nat) (cs : List Char) (read : List Token) : Except ParseError (List Token) :=
  let start := pos + gap cs
  match _h : cs.drop (gap cs) with
  | [] => .ok (⟨.finish, ⟨start, start⟩⟩ :: read).reverse
  | c :: after =>
    match lexeme c after with
    | .error (fault, ahead) => .error ⟨fault, start + ahead⟩
    | .ok (kind, more) =>
      let stop := start + 1 + more
      scan stop (after.drop more) (⟨kind, ⟨start, stop⟩⟩ :: read)
termination_by cs.length
decreasing_by
  have := congrArg List.length _h
  simp only [List.length_drop, List.length_cons] at this ⊢
  omega

end Token

/-- The tokens of a text, the last of which is `finish`. -/
def tokens (text : String) : Except ParseError (List Token) := Token.scan 0 text.toList []

end LanguageServer.Script
