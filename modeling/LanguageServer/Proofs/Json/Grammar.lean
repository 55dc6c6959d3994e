import LanguageServer.Json.Skip
import Mathlib.Data.List.Forall2

/-! # The grammar of JSON texts

What a JSON text is, said of its bytes and not by way of a reader. `Value tree bs rest` says that
the bytes `bs` begin with a value, after white space, and that `rest` comes behind it; `tree` is the
shape of the value. The other relations do the same for the parts of values.

The grammar asks less of a string than UTF-8: it may hold any bytes but control characters, and
escapes of half a character. Such a string has no text; `textOf` says which strings have one.

* `Chars`, `textOf`: strings;
* `Number`: numbers;
* `Listed`: what stands between brackets or braces;
* `Value`, `Spells`: values, and whole texts;
* `Shows`: the value that a shape stands for. -/

namespace LanguageServer.Json

open LanguageServer.Text

/-- The shape of a value. Numbers with a point or an exponent are all of one shape; a string has its
text, if there is one, and so have the keys of an object. -/
inductive Tree
  | null
  | bool (value : Bool)
  | integer (value : Int)
  | decimal
  | string (text : Option String)
  | array (items : List Tree)
  | object (members : List (Option String × Tree))

/-- After white space comes the byte, and then `rest`. -/
def Next (b : UInt8) (bs rest : List UInt8) : Prop :=
  ∃ gap, (∀ c ∈ gap, isSpace c = true) ∧ bs = gap ++ b :: rest

/-! ### Strings -/

/-- What a character or an escape of a string stands for: a byte, or a unit of UTF-16. -/
inductive Piece
  | byte (b : UInt8)
  | unit (n : Nat)

/-- The bytes that the pieces of a string stand for; absent if half of a character stands alone. -/
def resolve? : List Piece → Option (List UInt8)
  | [] => some []
  | .byte b :: ps => (resolve? ps).map fun bs => b :: bs
  | .unit n :: ps =>
    if isTrailing n then none
    else if isLeading n then
      match ps with
      | .unit m :: ps =>
        if isTrailing m then (resolve? ps).map fun bs => String.utf8EncodeChar (pairChar n m) ++ bs
        else none
      | _ => none
    else (resolve? ps).map fun bs => String.utf8EncodeChar (Char.ofNat n) ++ bs

/-- The text of a string, if its pieces spell one. -/
def textOf (ps : List Piece) : Option String := (resolve? ps).bind Utf8.decode?

/-- The pieces of a string, and its closing quote: bytes that stand for themselves, escapes of a
backslash and a letter, and escapes of four hexadecimal digits. -/
inductive Chars : List Piece → List UInt8 → List UInt8 → Prop
  | close {rest : List UInt8} : Chars [] (byte '"' :: rest) rest
  | plain {b : UInt8} {ps : List Piece} {bs rest : List UInt8} (hquote : b ≠ byte '"')
    (hbackslash : b ≠ byte '\\') (hcontrol : ¬ b < 0x20) (h : Chars ps bs rest) :
    Chars (.byte b :: ps) (b :: bs) rest
  | letter {b e : UInt8} {ps : List Piece} {bs rest : List UInt8} (he : escapeByte? b = some e)
    (h : Chars ps bs rest) : Chars (.byte e :: ps) (byte '\\' :: b :: bs) rest
  | numbered {a b c d : UInt8} {i j k l : Nat} {ps : List Piece} {bs rest : List UInt8}
    (ha : hexValue? a = some i) (hb : hexValue? b = some j) (hc : hexValue? c = some k)
    (hd : hexValue? d = some l) (h : Chars ps bs rest) :
    Chars (.unit (((i * 16 + j) * 16 + k) * 16 + l) :: ps)
      (byte '\\' :: byte 'u' :: a :: b :: c :: d :: bs) rest

/-! ### Numbers -/

/-- The number that digits denote, after digits that denote `n`. -/
def ofDigits (n : Nat) (ds : List UInt8) : Nat := ds.foldl (fun n d => n * 10 + digitValue d) n

/-- All bytes are decimal digits. -/
def AllDigits (ds : List UInt8) : Prop := ∀ d ∈ ds, isDigit d = true

/-- The digits of a number before the point: zero, or digits the first of which is not zero. -/
inductive Whole : Nat → List UInt8 → List UInt8 → Prop
  | zero {rest : List UInt8} : Whole 0 (byte '0' :: rest) rest
  | digits {b : UInt8} {ds rest : List UInt8} (hb : isDigit b = true) (hzero : b ≠ byte '0')
    (hds : AllDigits ds) : Whole (ofDigits (digitValue b) ds) (b :: (ds ++ rest)) rest

/-- An exponent: a letter, perhaps a sign, and digits. -/
inductive Exponent : List UInt8 → List UInt8 → Prop
  | mk {e : UInt8} {sign ds rest : List UInt8} (he : e = byte 'e' ∨ e = byte 'E')
    (hsign : sign = [] ∨ sign = [byte '+'] ∨ sign = [byte '-']) (hne : ds ≠ [])
    (hds : AllDigits ds) : Exponent (e :: (sign ++ (ds ++ rest))) rest

/-- What makes a number more than an integer: digits after a point, an exponent, or both. -/
inductive Scaling : List UInt8 → List UInt8 → Prop
  | point {ds rest : List UInt8} (hne : ds ≠ []) (hds : AllDigits ds) :
    Scaling (byte '.' :: (ds ++ rest)) rest
  | exponent {bs rest : List UInt8} (h : Exponent bs rest) : Scaling bs rest
  | both {ds middle rest : List UInt8} (hne : ds ≠ []) (hds : AllDigits ds)
    (h : Exponent middle rest) : Scaling (byte '.' :: (ds ++ middle)) rest

/-- A number, its sign apart. -/
inductive Number (negative : Bool) : Tree → List UInt8 → List UInt8 → Prop
  | integer {n : Nat} {bs rest : List UInt8} (h : Whole n bs rest) :
    Number negative (.integer (if negative then -(n : Int) else n)) bs rest
  | decimal {n : Nat} {bs middle rest : List UInt8} (h : Whole n bs middle)
    (hscaling : Scaling middle rest) : Number negative .decimal bs rest

/-! ### Values -/

section Listed

variable {τ : Type} (Item : τ → List UInt8 → List UInt8 → Prop) (closer : UInt8)

/-- Further items, each after a comma, up to the closing byte. -/
inductive More : List τ → List UInt8 → List UInt8 → Prop
  | done {bs rest : List UInt8} (h : Next closer bs rest) : More [] bs rest
  | next {a : τ} {as : List τ} {bs start middle rest : List UInt8}
    (hcomma : Next (byte ',') bs start) (hitem : Item a start middle)
    (hmore : More as middle rest) : More (a :: as) bs rest

/-- Items with commas between them, up to the closing byte. -/
inductive Listed : List τ → List UInt8 → List UInt8 → Prop
  | none {bs rest : List UInt8} (h : Next closer bs rest) : Listed [] bs rest
  | some {a : τ} {as : List τ} {bs middle rest : List UInt8} (hitem : Item a bs middle)
    (hmore : More Item closer as middle rest) : Listed (a :: as) bs rest

end Listed

/-- A member of an object: a key, a colon, and a value. -/
inductive Keyed (Item : Tree → List UInt8 → List UInt8 → Prop) :
    Option String × Tree → List UInt8 → List UInt8 → Prop
  | mk {ps : List Piece} {tree : Tree} {bs key after start rest : List UInt8}
    (hquote : Next (byte '"') bs key) (hkey : Chars ps key after)
    (hcolon : Next (byte ':') after start) (hvalue : Item tree start rest) :
    Keyed Item (textOf ps, tree) bs rest

/-- A value. -/
inductive Value : Tree → List UInt8 → List UInt8 → Prop
  | blank {tree : Tree} {b : UInt8} {bs rest : List UInt8} (hb : isSpace b = true)
    (h : Value tree bs rest) : Value tree (b :: bs) rest
  | null {rest : List UInt8} : Value .null (bytesOf "null" ++ rest) rest
  | yes {rest : List UInt8} : Value (.bool true) (bytesOf "true" ++ rest) rest
  | no {rest : List UInt8} : Value (.bool false) (bytesOf "false" ++ rest) rest
  | number {tree : Tree} {bs rest : List UInt8} (h : Number false tree bs rest) :
    Value tree bs rest
  | negative {tree : Tree} {bs rest : List UInt8} (h : Number true tree bs rest) :
    Value tree (byte '-' :: bs) rest
  | string {ps : List Piece} {bs rest : List UInt8} (h : Chars ps bs rest) :
    Value (.string (textOf ps)) (byte '"' :: bs) rest
  | array {ts : List Tree} {bs rest : List UInt8} (h : Listed Value (byte ']') ts bs rest) :
    Value (.array ts) (byte '[' :: bs) rest
  | object {ms : List (Option String × Tree)} {bs rest : List UInt8}
    (h : Listed (Keyed Value) (byte '\x7d') ms bs rest) :
    Value (.object ms) (byte '\x7b' :: bs) rest

theorem Value.front_of_object {ms : List (Option String × Tree)} {bs rest : List UInt8}
    (h : Value (.object ms) bs rest) :
    ∃ b after, bs = b :: after ∧ (isSpace b = true ∨ b = byte '\x7b') := by
  cases h with
  | blank hb => exact ⟨_, _, rfl, .inl hb⟩
  | number h => cases h
  | negative h => cases h
  | object => exact ⟨_, _, rfl, .inr rfl⟩

theorem Value.of_brace {tree : Tree} {bs rest : List UInt8}
    (h : Value tree (byte '\x7b' :: bs) rest) :
    ∃ ms, tree = .object ms ∧ Listed (Keyed Value) (byte '\x7d') ms bs rest := by
  generalize hbs : byte '\x7b' :: bs = text at h
  have hfront {b : UInt8} {after : List UInt8} (hb : b ≠ byte '\x7b') : text ≠ b :: after := by
    rintro rfl
    exact hb (List.cons.inj hbs).1.symm
  have hwhole {n : Nat} {after : List UInt8} : ¬ Whole n text after := by
    intro hwhole
    cases hwhole with
    | zero => exact hfront (by decide) rfl
    | digits hb => exact hfront (by rintro rfl; exact absurd hb (by decide)) rfl
  cases h with
  | blank hb => exact absurd rfl (hfront (by rintro rfl; exact absurd hb (by decide)))
  | null => exact absurd rfl (hfront (by decide))
  | yes => exact absurd rfl (hfront (by decide))
  | no => exact absurd rfl (hfront (by decide))
  | number h =>
    cases h with
    | integer h => exact absurd h hwhole
    | decimal h => exact absurd h hwhole
  | negative => exact absurd rfl (hfront (by decide))
  | string => exact absurd rfl (hfront (by decide))
  | array => exact absurd rfl (hfront (by decide))
  | object h =>
    cases hbs
    exact ⟨_, rfl, h⟩
/-- The text is one value, with nothing but white space around it. -/
def Spells (text : List UInt8) (tree : Tree) : Prop :=
  ∃ rest, Value tree text rest ∧ ∀ b ∈ rest, isSpace b = true

/-! ### Meaning -/

/-- A member whose key has a text, and what it stands for. -/
inductive ShowsMember (Item : Tree → Json → Prop) : Option String × Tree → String × Json → Prop
  | mk {key : String} {tree : Tree} {v : Json} (h : Item tree v) :
    ShowsMember Item (some key, tree) (key, v)

/-- The value that a shape stands for. Of an object the last member with a key counts, and numbers
may be rounded. -/
inductive Shows : Tree → Json → Prop
  | null : Shows .null .null
  | bool (value : Bool) : Shows (.bool value) (.bool value)
  | integer (n : Int) : Shows (.integer n) (.integer n)
  | rounded (n : Int) (x : Float) : Shows (.integer n) (.float x)
  | decimal (x : Float) : Shows .decimal (.float x)
  | string (s : String) : Shows (.string (some s)) (.string s)
  | array {ts : List Tree} {vs : List Json} (h : List.Forall₂ Shows ts vs) :
    Shows (.array ts) (.array vs)
  | object {ms : List (Option String × Tree)} {vs : List (String × Json)}
    (h : List.Forall₂ (ShowsMember Shows) ms vs) : Shows (.object ms) (ofMembers vs)

end LanguageServer.Json
