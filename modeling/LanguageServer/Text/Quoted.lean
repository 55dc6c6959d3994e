import LanguageServer.Text.Hex
import LanguageServer.Text.Hidden

/-! # Quoted text

A text in quotes, every character visible: tab, line ends, NUL and the backslash by their letters,
the quote itself behind a backslash, other hidden characters by number, `\u{…}` in lower-case
hexadecimal. A quoted string stands in double quotes, a quoted character in single ones, and each
leaves the other's quote alone. -/

namespace LanguageServer.Text

/-- How `c` is written inside quotes `mark`. -/
def escape (mark c : Char) : List Char :=
  if c = '\x00' then ['\\', '0']
  else if c = '\t' then ['\\', 't']
  else if c = '\r' then ['\\', 'r']
  else if c = '\n' then ['\\', 'n']
  else if c = '\\' then ['\\', '\\']
  else if c = mark then ['\\', mark]
  else if isHidden c then ['\\', 'u', '\x7b'] ++ hexDigits c.toNat ++ ['\x7d']
  else [c]

/-- The text in double quotes. -/
def quoted (text : String) : String :=
  String.ofList ('"' :: text.toList.flatMap (escape '"') ++ ['"'])

/-- The character in single quotes. -/
def quotedChar (c : Char) : String :=
  String.ofList ('\'' :: escape '\'' c ++ ['\''])

end LanguageServer.Text
