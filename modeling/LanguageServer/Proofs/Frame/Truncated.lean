import LanguageServer.Proofs.Frame.Grammar

/-! # Streams that break off inside a message

A stream of messages is cut somewhere inside the bytes of one of them. The messages before that one
are read as if nothing had happened, and then an error is due: the header block or the body is not
complete. There is one cut that nobody notices. The line feed that ends the blank line may be
missing, since a line also ends with the stream, and a message without a body is then complete.

* `encode_cut`: where a cut can fall, between the lines of the header and in the body;
* `read_open`: a cut inside the first line;
* `read_cut`: any cut of one message;
* `readAll_take_written`: a stream that is cut, and `cut_unnoticed`: the cut that is not noticed. -/

namespace LanguageServer.Frame

open FramingError (maxBody)

/-! ### Where a cut can fall -/

/-- The line of the header, without its line feed. -/
def headerLine (n : Nat) : List UInt8 := Text.Utf8.encode (lengthLine n ++ ['\r'])

theorem encode_lines (body : List UInt8) :
    encode body = headerLine body.length ++ 10 :: 13 :: 10 :: body := encode_eq body

theorem ten_notMem_headerLine (n : Nat) : 10 ∉ headerLine n :=
  Text.Utf8.ten_notMem_encode (notMem_lengthLine n)

/-- **Where a cut can fall:** inside the first line, before the blank line, inside it, or inside the
body. -/
theorem encode_cut {body cut missing : List UInt8} (h : encode body = cut ++ missing) :
    (10 ∉ cut ∧ 3 ≤ missing.length) ∨
    (cut = headerLine body.length ++ [10] ∧ missing = 13 :: 10 :: body) ∨
    (cut = headerLine body.length ++ [10] ++ [13] ∧ missing = 10 :: body) ∨
    ∃ got, cut = headerLine body.length ++ [10] ++ ([13, 10] ++ got) ∧ body = got ++ missing := by
  have hopen : 10 ∉ headerLine body.length := ten_notMem_headerLine body.length
  rw [encode_lines] at h
  generalize headerLine body.length = line at h hopen ⊢
  rcases List.append_eq_append_iff.mp h with ⟨more, rfl, hmore⟩ | ⟨left, rfl, rfl⟩
  · match more, hmore with
    | [], hmore =>
      rw [List.nil_append] at hmore
      subst hmore
      exact Or.inl ⟨by rwa [List.append_nil], by simp⟩
    | [_], hmore =>
      cases hmore
      exact Or.inr (Or.inl ⟨rfl, rfl⟩)
    | [_, _], hmore =>
      cases hmore
      exact Or.inr (Or.inr (Or.inl ⟨by simp, rfl⟩))
    | _ :: _ :: _ :: got, hmore =>
      cases hmore
      exact Or.inr (Or.inr (Or.inr ⟨got, by simp, rfl⟩))
  · refine Or.inl ⟨fun hmem => hopen (List.mem_append_left left hmem), ?_⟩
    simp only [List.length_append, List.length_cons]
    omega

/-! ### One message -/

/-- **A stream without a line feed holds no message:** no line before its end names a length. -/
theorem read_open {cut : List UInt8} (hne : cut ≠ []) (hopen : 10 ∉ cut) :
    ∃ error, read none cut = .error error := by
  rcases sound_or_offends cut with hsound | ⟨error, hoffends⟩
  · by_cases hblank : headerText cut = []
    · have hbroken := Broken.unannounced headerLines_nil (Or.inr ⟨hne, hopen, rfl⟩) hblank (by simp)
      rw [List.flatten_nil, List.nil_append, List.append_nil] at hbroken
      exact ⟨_, hbroken.read⟩
    · exact ⟨_, (Broken.cut headerLines_nil hopen hblank hsound).read⟩
  · have hbroken := Broken.offended headerLines_nil (Or.inr ⟨hne, hopen, rfl⟩) hoffends
    rw [List.flatten_nil, List.nil_append, List.append_nil] at hbroken
    exact ⟨_, hbroken.read⟩

theorem headerLines_written {n : Nat} (hn : n ≤ Decimal.maxInteger) :
    HeaderLines [headerLine n ++ [10]] ∧ Announces [headerLine n ++ [10]] n := by
  have htext : headerText (headerLine n ++ [10]) = lengthLine n := by
    rw [headerText_concat, headerLine, headerText_encode, trim_lengthLine]
  -- the reader takes the length off this line, so the line says what it is
  have hafter := afterHeader_eq none (headerLine n ++ [10])
  rw [htext, afterHeader_lengthLine none hn] at hafter
  cases hvalue : lengthText? (headerLine n ++ [10]) with
  | none =>
    rw [hvalue] at hafter
    cases hafter
  | some value =>
    rw [hvalue] at hafter
    obtain ⟨m, hm, hsome⟩ := Decimal.map_eq_ok.mp hafter.symm
    cases hsome
    obtain ⟨hspells, hfits⟩ := readLength_eq_ok_iff.mp hm
    have hended : Ended (headerLine n ++ [10]) := ⟨headerLine n, rfl, ten_notMem_headerLine n⟩
    have hfilled : headerText (headerLine n ++ [10]) ≠ [] := by
      rw [htext]
      exact lengthLine_ne_nil n
    have hsound : Sound (headerLine n ++ [10]) := by
      intro value' h
      rw [hvalue] at h
      cases h
      exact ⟨n, hspells, hfits⟩
    refine ⟨.cons hended hfilled hsound headerLines_nil, value, ?_, hspells⟩
    rw [List.filterMap_cons_some hvalue]
    rfl

theorem headerText_return : headerText [13] = [] := by
  have hreturn : headerText (Text.Utf8.encode ['\r']) = Text.trim ['\r'] := headerText_encode
  exact hreturn.trans (by decide)

/-- **A message that is cut is not read,** but for the one cut that nobody notices. -/
theorem read_cut {body cut missing : List UInt8} (hbody : body.length ≤ maxBody)
    (hframe : encode body = cut ++ missing) (hcut : cut ≠ []) (hmissing : missing ≠ []) :
    (body = [] ∧ missing.length = 1) ∧ read none cut = .ok (some ([], [])) ∨
      ¬ (body = [] ∧ missing.length = 1) ∧ ∃ error, read none cut = .error error := by
  obtain ⟨hlines, hannounces⟩ := headerLines_written (Nat.le_trans hbody (by decide))
  have hflat : ∀ rest, [headerLine body.length ++ [10]].flatten ++ rest =
      headerLine body.length ++ [10] ++ rest := by simp
  rcases encode_cut hframe with
    ⟨hopen, hlength⟩ | ⟨rfl, rfl⟩ | ⟨rfl, rfl⟩ | ⟨got, rfl, rfl⟩
  · right
    refine ⟨?_, read_open hcut hopen⟩
    rintro ⟨-, hone⟩
    omega
  · right
    have hread := (Broken.ended hlines (by simp)).read
    rw [List.flatten_singleton] at hread
    exact ⟨by simp, _, hread⟩
  · have hblank : LineBefore [13] [] := Or.inr ⟨by simp, by decide, rfl⟩
    by_cases hempty : body = []
    · left
      subst hempty
      have hframed : Framed _ [] [] :=
        .message hlines hblank headerText_return hannounces (Nat.zero_le _)
      have hread := hframed.read
      rw [hflat] at hread
      exact ⟨⟨rfl, rfl⟩, hread⟩
    · right
      have hshort : ([] : List UInt8).length < body.length := List.length_pos_iff.mpr hempty
      have hread := (Broken.truncated hlines hblank headerText_return hannounces hbody hshort).read
      rw [hflat] at hread
      exact ⟨fun h => hempty h.1, _, hread⟩
  · right
    have hended : LineBefore [13, 10] got := Or.inl ⟨[13], rfl, by decide⟩
    have hblank : headerText [13, 10] = [] := (headerText_concat [13]).trans headerText_return
    have hshort : got.length < (got ++ missing).length := by
      have := List.length_pos_iff.mpr hmissing
      rw [List.length_append]
      omega
    have hread := (Broken.truncated hlines hended hblank hannounces hbody hshort).read
    rw [hflat] at hread
    refine ⟨?_, _, hread⟩
    rintro ⟨hnil, -⟩
    exact hmissing (List.append_eq_nil_iff.mp hnil).2

/-! ### Streams -/

/-- A stream that is cut inside one of its messages: those before it, and what is left of it. -/
theorem exists_of_take_written {bodies : List (List UInt8)} {k cut : Nat} {body : List UInt8}
    (hk : bodies[k]? = some body) (hkept : (written (bodies.take k)).length < cut)
    (hmissing : cut < (written (bodies.take (k + 1))).length) :
    ∃ front missing, encode body = front ++ missing ∧ front ≠ [] ∧
      cut + missing.length = (written (bodies.take (k + 1))).length ∧ missing ≠ [] ∧
      (written bodies).take cut = (bodies.take k).flatMap encode ++ front := by
  simp only [written_eq] at hkept hmissing ⊢
  obtain ⟨hlt, rfl⟩ := List.getElem?_eq_some_iff.mp hk
  have hnext : (bodies.take (k + 1)).flatMap encode =
      (bodies.take k).flatMap encode ++ encode bodies[k] := by
    rw [List.take_succ_eq_append_getElem hlt, List.flatMap_append, List.flatMap_singleton]
  have hall : bodies.flatMap encode = (bodies.take k).flatMap encode ++
      (encode bodies[k] ++ (bodies.drop (k + 1)).flatMap encode) := by
    rw [← List.append_assoc, ← hnext, ← List.flatMap_append, List.take_append_drop]
  rw [hnext, List.length_append] at hmissing ⊢
  rw [hall]
  generalize (bodies.take k).flatMap encode = before at hkept hmissing ⊢
  generalize encode bodies[k] = frame at hmissing ⊢
  refine ⟨frame.take (cut - before.length), frame.drop (cut - before.length),
    (List.take_append_drop _ _).symm, ?_, ?_, ?_, ?_⟩
  · rw [← List.length_pos_iff, List.length_take]
    omega
  · rw [List.length_drop]
    omega
  · rw [← List.length_pos_iff, List.length_drop]
    omega
  · rw [List.take_append, List.take_of_length_le (Nat.le_of_lt hkept),
      List.take_append_of_le_length (by omega)]

theorem readAll_of_unnoticed {front : List UInt8} (hread : read none front = .ok (some ([], []))) :
    readAll none front = ([[]], none) := by
  have hend : readAll none [] = ([], none) := readAll_eq none []
  rw [readAll_eq, hread]
  simp only [hend]

/-- **A stream that is cut inside a message is noticed,** with one exception. The messages before
the cut are read, in order and byte for byte; then comes an error, and neither a message nor a clean
end. Only if the message that is cut has no body, and no more than its last byte is missing, is it
read, and the end of the stream is clean. -/
theorem readAll_take_written {bodies : List (List UInt8)}
    (hbodies : ∀ body ∈ bodies, body.length ≤ maxBody) {k cut : Nat} {body : List UInt8}
    (hk : bodies[k]? = some body) (hkept : (written (bodies.take k)).length < cut)
    (hmissing : cut < (written (bodies.take (k + 1))).length) :
    (body = [] ∧ cut + 1 = (written (bodies.take (k + 1))).length →
      readAll none ((written bodies).take cut) = (bodies.take (k + 1), none)) ∧
    (¬ (body = [] ∧ cut + 1 = (written (bodies.take (k + 1))).length) →
      ∃ error, readAll none ((written bodies).take cut) = (bodies.take k, some error)) := by
  obtain ⟨front, missing, hframe, hfront, hlength, hne, hstream⟩ :=
    exists_of_take_written hk hkept hmissing
  have hbefore : ∀ b ∈ bodies.take k, b.length ≤ maxBody := fun b hb =>
    hbodies b (List.mem_of_mem_take hb)
  have hbody : body.length ≤ maxBody := hbodies body (List.mem_of_getElem? hk)
  rw [hstream, readAll_flatMap none hbefore]
  rcases read_cut hbody hframe hfront hne with ⟨⟨rfl, hone⟩, hread⟩ | ⟨hnot, error, hread⟩
  · refine ⟨fun _ => ?_, fun hnot => absurd ⟨rfl, by omega⟩ hnot⟩
    obtain ⟨hlt, hget⟩ := List.getElem?_eq_some_iff.mp hk
    rw [readAll_of_unnoticed hread, List.take_succ_eq_append_getElem hlt, hget]
  · refine ⟨fun ⟨hempty, hcut⟩ => absurd ⟨hempty, by omega⟩ hnot, fun _ => ⟨error, ?_⟩⟩
    rw [readAll_eq, hread, List.append_nil]

/-- The body of the second message breaks off. -/
theorem readAll_take_written_second :
    let bodies : List (List UInt8) := [[], [104, 105], [33]]
    (∀ body ∈ bodies, body.length ≤ maxBody) ∧ bodies[1]? = some [104, 105] ∧
      (written (bodies.take 1)).length < 43 ∧ 43 < (written (bodies.take 2)).length ∧
      ∃ error, readAll none ((written bodies).take 43) = ([[]], some error) := by
  intro bodies
  have hbodies : ∀ body ∈ bodies, body.length ≤ maxBody := by decide
  have hkept : (written (bodies.take 1)).length < 43 := by decide +kernel
  have hmissing : 43 < (written (bodies.take 2)).length := by decide +kernel
  refine ⟨hbodies, rfl, hkept, hmissing, ?_⟩
  exact (readAll_take_written hbodies (k := 1) rfl hkept hmissing).2 (by simp)

/-- **The cut that is not noticed:** a message without a body, less its last byte. -/
theorem cut_unnoticed :
    ¬ ∀ (bodies : List (List UInt8)) (k cut : Nat), (∀ body ∈ bodies, body.length ≤ maxBody) →
      k < bodies.length → (written (bodies.take k)).length < cut →
      cut < (written (bodies.take (k + 1))).length →
      ∃ error, readAll none ((written bodies).take cut) = (bodies.take k, some error) := by
  intro hall
  have hk : [([] : List UInt8)][0]? = some [] := rfl
  have hkept : (written ([[]].take 0)).length < 20 := by decide +kernel
  have hwhole : (written ([[]].take 1)).length = 21 := by decide +kernel
  have hmissing : 20 < (written ([[]].take 1)).length := by omega
  obtain ⟨error, herror⟩ := hall [[]] 0 20 (by decide) (by decide) hkept hmissing
  obtain ⟨front, missing, hframe, hfront, hlength, hne, hstream⟩ :=
    exists_of_take_written hk hkept hmissing
  rw [hstream, List.take_zero, List.flatMap_nil, List.nil_append] at herror
  rcases read_cut (Nat.zero_le _) hframe hfront hne with ⟨-, hread⟩ | ⟨hnot, -⟩
  · rw [readAll_of_unnoticed hread] at herror
    cases herror
  · have hone : 20 + missing.length = 21 := hlength.trans hwhole
    exact hnot ⟨rfl, by omega⟩

end LanguageServer.Frame
