import LanguageServer.Frame.Write
import LanguageServer.Proofs.Decimal.Integer
import LanguageServer.Proofs.Text.Blank
import LanguageServer.Proofs.Text.Utf8
import Mathlib.Data.List.Basic

/-! # The header of a message is read back

The header that `encode` writes passes through four readers: lines are cut at the line feed, bytes
become characters, white space is trimmed, and digits become a number (`readInteger_toString`). Each
of them undoes one part of the writing.

* `trim_padded`: the white space;
* `headers_line_feed`: one line of the block, and `headers_line`, `headers_blank`: one that was
  written;
* `headers_encode`: the whole block, in front of any bytes. -/

namespace LanguageServer

/-! ### White space -/

namespace Text

theorem dropWhile_isBlank {before cs : List Char} (hbefore : ∀ c ∈ before, isBlank c = true)
    (hfirst : ∀ c ∈ cs.head?, isBlank c = false) : (before ++ cs).dropWhile isBlank = cs := by
  rw [List.dropWhile_append_of_pos hbefore]
  cases cs with
  | nil => rfl
  | cons c cs => rw [List.dropWhile_cons_of_neg (by simp [hfirst c rfl])]

/-- **Trimming removes the blanks around a text,** and only those, if the text has none at its ends.
-/
theorem trim_padded (before : List Char) {cs : List Char} (after : List Char)
    (hbefore : ∀ c ∈ before, isBlank c = true) (hafter : ∀ c ∈ after, isBlank c = true)
    (hcs : cs ≠ [])
    (hfirst : ∀ c ∈ cs.head?, isBlank c = false) (hlast : ∀ c ∈ cs.getLast?, isBlank c = false) :
    trim (before ++ (cs ++ after)) = cs := by
  have hfirst' : ∀ c ∈ (cs ++ after).head?, isBlank c = false := by
    obtain ⟨c, cs, rfl⟩ := List.exists_cons_of_ne_nil hcs
    exact hfirst
  rw [trim, dropWhile_isBlank hbefore hfirst', List.reverse_append, dropWhile_isBlank,
    List.reverse_reverse]
  · intro c hc
    exact hafter c (List.mem_reverse.mp hc)
  · rw [List.head?_reverse]
    exact hlast

end Text

/-! ### The header block -/

namespace Frame

section Line

variable {failure : Option String} {length : Option Nat} {bound : Nat} {cs : List Char}
  {rest : List UInt8}

/-- **A line that the line feed ends:** it closes the block if it is blank, and else may change the
length. -/
theorem headers_line_feed {line : List UInt8} (hline : ∀ b ∈ line, inLine b = true)
    (h : (line ++ 10 :: rest).length ≤ bound + 1) (hrest : rest.length ≤ bound) :
    headers failure length (line ++ 10 :: rest) h =
      if (headerText line).isEmpty then .ok ⟨length, rest, hrest⟩
      else
        match afterHeader length (headerText line) with
        | .error e => .error e
        | .ok known => headers failure known rest (Nat.le_succ_of_le hrest) := by
  have htake : (line ++ 10 :: rest).takeWhile inLine = line := by
    rw [List.takeWhile_append_of_pos hline, List.takeWhile_cons_of_neg (by decide),
      List.append_nil]
  have hdrop : (line ++ 10 :: rest).dropWhile inLine = 10 :: rest := by
    rw [List.dropWhile_append_of_pos hline, List.dropWhile_cons_of_neg (by decide)]
  rw [headers.eq_def]
  simp only [htake]
  split
  · next b rest' hcons =>
    rw [hdrop] at hcons
    obtain ⟨rfl, rfl⟩ := List.cons.inj hcons
    rfl
  · next hnil =>
    rw [hdrop] at hnil
    cases hnil

theorem inLine_of_mem_encode (hcs : '\n' ∉ cs) : ∀ b ∈ Text.Utf8.encode cs, inLine b = true := by
  intro b hb
  rw [inLine, bne_iff_ne]
  rintro rfl
  exact Text.Utf8.ten_notMem_encode hcs hb

theorem headerText_encode : headerText (Text.Utf8.encode cs) = Text.trim cs := by
  rw [headerText, Text.Utf8.decodeLossy_encode]

theorem headers_blank (hcs : '\n' ∉ cs) (hblank : Text.trim cs = [])
    (h : (Text.Utf8.encode cs ++ 10 :: rest).length ≤ bound + 1) :
    headers failure length (Text.Utf8.encode cs ++ 10 :: rest) h =
      .ok ⟨length, rest, by simp only [List.length_append, List.length_cons] at h; omega⟩ := by
  have hempty : (headerText (Text.Utf8.encode cs)).isEmpty = true := by
    rw [headerText_encode, hblank, List.isEmpty_nil]
  rw [headers_line_feed (inLine_of_mem_encode hcs) h, if_pos hempty]

theorem headers_line {known : Option Nat} (hcs : '\n' ∉ cs) (hfilled : Text.trim cs ≠ [])
    (hknown : afterHeader length (Text.trim cs) = .ok known)
    (h : (Text.Utf8.encode cs ++ 10 :: rest).length ≤ bound + 1) :
    headers failure length (Text.Utf8.encode cs ++ 10 :: rest) h =
      headers failure known rest
        (by simp only [List.length_append, List.length_cons] at h; omega) := by
  have hrest : rest.length ≤ bound := by
    simp only [List.length_append, List.length_cons] at h
    omega
  have hne : ¬ (headerText (Text.Utf8.encode cs)).isEmpty = true := by
    rwa [headerText_encode, List.isEmpty_iff]
  rw [headers_line_feed (inLine_of_mem_encode hcs) h hrest, if_neg hne, headerText_encode, hknown]

end Line

/-- The line that carries the length `n`. -/
def lengthLine (n : Nat) : List Char := lengthHeader.toList ++ ' ' :: (toString n).toList

theorem lengthLine_ne_nil (n : Nat) : lengthLine n ≠ [] := List.cons_ne_nil _ _

theorem digits_ends (n : Nat) :
    (∀ c ∈ (toString n).toList.head?, Text.isBlank c = false) ∧
      ∀ c ∈ (toString n).toList.getLast?, Text.isBlank c = false := by
  constructor
  · intro c hc
    exact Text.isBlank_eq_false_of_isDigit
      (Decimal.isDigit_of_mem_toString (List.mem_of_mem_head? hc))
  · intro c hc
    exact Text.isBlank_eq_false_of_isDigit
      (Decimal.isDigit_of_mem_toString (List.mem_of_mem_getLast? hc))

theorem trim_lengthLine (n : Nat) : Text.trim (lengthLine n ++ ['\r']) = lengthLine n := by
  have hreturn : ∀ c ∈ ['\r'], Text.isBlank c = true := List.forall_mem_singleton.mpr (by decide)
  have hfirst : ∀ c ∈ (lengthLine n).head?, Text.isBlank c = false := by
    intro c hc
    cases hc
    decide
  have hlast : ∀ c ∈ (lengthLine n).getLast?, Text.isBlank c = false := by
    rw [lengthLine, List.getLast?_append_cons,
      List.getLast?_cons_of_ne_nil (Decimal.toString_toList_ne_nil n)]
    exact (digits_ends n).2
  have htrim := Text.trim_padded [] ['\r'] (by simp) hreturn (lengthLine_ne_nil n) hfirst hlast
  rwa [List.nil_append] at htrim

theorem afterHeader_lengthLine {n : Nat} (length : Option Nat) (h : n ≤ Decimal.maxInteger) :
    afterHeader length (lengthLine n) = .ok (some n) := by
  have hvalue : Text.trim (' ' :: (toString n).toList) = (toString n).toList := by
    have hspace : ∀ c ∈ [' '], Text.isBlank c = true := List.forall_mem_singleton.mpr (by decide)
    have htrim := Text.trim_padded [' '] [] hspace (by simp)
      (Decimal.toString_toList_ne_nil n) (digits_ends n).1 (digits_ends n).2
    rwa [List.append_nil] at htrim
  have hlength : readLength (toString n).toList = .ok n := by
    rw [readLength, Decimal.readInteger_toString h]
    simp
  rw [afterHeader, lengthLine, if_pos (by simp), List.drop_left, hvalue, hlength]
  rfl

theorem encode_eq (body : List UInt8) :
    encode body = Text.Utf8.encode (lengthLine body.length ++ ['\r']) ++
      10 :: (Text.Utf8.encode ['\r'] ++ 10 :: body) := by
  have htext : (lengthHeader ++ " " ++ toString body.length ++ "\r\n\r\n").toList =
      (lengthLine body.length ++ ['\r']) ++ ('\n' :: ['\r'] ++ ['\n']) := by
    simp [lengthLine]
  rw [encode, Text.Utf8.ofString, htext, Text.Utf8.encode_append, List.append_assoc]
  rfl

theorem notMem_lengthLine (n : Nat) : '\n' ∉ lengthLine n ++ ['\r'] := by
  have hdigits : '\n' ∉ (toString n).toList := fun hmem =>
    absurd (Decimal.isDigit_of_mem_toString hmem) (by decide)
  simp only [lengthLine, List.mem_append, List.mem_cons, not_or]
  exact ⟨⟨by decide, by decide, hdigits⟩, by decide, List.not_mem_nil⟩

/-- **The header of a message is read back,** and the bytes after it are left. -/
theorem headers_encode {failure : Option String} {bound : Nat} {body rest : List UInt8}
    (hbody : body.length ≤ Decimal.maxInteger) (h : (encode body ++ rest).length ≤ bound + 1)
    (hrest : (body ++ rest).length ≤ bound) :
    headers failure none (encode body ++ rest) h =
      .ok ⟨some body.length, body ++ rest, hrest⟩ := by
  have hbytes : encode body ++ rest =
      Text.Utf8.encode (lengthLine body.length ++ ['\r']) ++
        10 :: (Text.Utf8.encode ['\r'] ++ 10 :: (body ++ rest)) := by
    simp only [encode_eq, List.append_assoc, List.cons_append]
  have hfilled : Text.trim (lengthLine body.length ++ ['\r']) ≠ [] := by
    rw [trim_lengthLine]
    exact lengthLine_ne_nil body.length
  have hlength : afterHeader none (Text.trim (lengthLine body.length ++ ['\r'])) =
      .ok (some body.length) := by
    rw [trim_lengthLine, afterHeader_lengthLine none hbody]
  simp only [hbytes]
  rw [headers_line (notMem_lengthLine _) hfilled hlength, headers_blank (by decide) (by decide)]

end Frame

end LanguageServer
