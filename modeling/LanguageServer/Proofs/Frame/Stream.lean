import LanguageServer.Proofs.Frame.Header

/-! # Streams of messages are read back

The bytes of one message are read back whatever follows them, and exactly those bytes are consumed,
so the next header starts where the next reading does. Whole streams follow by induction over the
bodies.

* `read_encode`: one message in front of any bytes;
* `readAll_eq`: the reading of a stream, call after call;
* `written_eq`: what a sink without limits stores;
* `readAll_written`: a stream of messages. -/

namespace LanguageServer.Frame

open FramingError (maxBody)

/-! ### One message -/

section Message

variable {failure : Option String} {body rest : List UInt8}

theorem length_encode (body : List UInt8) : body.length < (encode body).length := by
  simp only [encode_eq, List.length_append, List.length_cons]
  omega

theorem encode_append_ne_nil (body rest : List UInt8) : encode body ++ rest ≠ [] := by
  intro hnil
  have hlength := length_encode body
  rw [(List.append_eq_nil_iff.mp hnil).1, List.length_nil] at hlength
  omega

theorem body_append {bound : Nat} (h : (body ++ rest).length ≤ bound) :
    Frame.body failure body.length (body ++ rest) h =
      .ok ⟨body, rest, by rw [List.length_append] at h; omega⟩ := by
  simp [Frame.body]

theorem message_encode {b : UInt8} {bs : List UInt8} (hbs : encode body ++ rest = b :: bs)
    (hbody : body.length ≤ Decimal.maxInteger) :
    ∃ h : rest.length ≤ bs.length, message failure b bs =
      if maxBody < body.length then .error (.tooLarge body.length) else .ok ⟨body, rest, h⟩ := by
  have hlength : (body ++ rest).length ≤ bs.length := by
    have hcons := congrArg List.length hbs
    have hheader := length_encode body
    simp only [List.length_append, List.length_cons] at hcons ⊢
    omega
  have hheaders : headers failure none (b :: bs) (Nat.le_refl _) =
      .ok ⟨some body.length, body ++ rest, hlength⟩ := by
    simp only [← hbs]
    exact headers_encode hbody _ hlength
  refine ⟨by rw [List.length_append] at hlength; omega, ?_⟩
  rw [message, hheaders]
  simp only [body_append]

/-- **A message is read back,** and the bytes after it are left; one that is too large is refused by
its size. -/
theorem read_encode (hbody : body.length ≤ Decimal.maxInteger) :
    read failure (encode body ++ rest) =
      if maxBody < body.length then .error (.tooLarge body.length)
      else .ok (some (body, rest)) := by
  obtain ⟨b, bs, hbs⟩ := List.exists_cons_of_ne_nil (encode_append_ne_nil body rest)
  obtain ⟨h, hmessage⟩ := message_encode hbs hbody
  rw [hbs, read, hmessage]
  split_ifs <;> rfl

end Message

/-! ### Repeated reading -/

section Steps

variable (failure : Option String)

theorem readAllFrom_eq (done : List (List UInt8)) (bs : List UInt8) :
    readAllFrom failure done bs =
      (done.reverse ++ (readAll failure bs).1, (readAll failure bs).2) := by
  unfold readAll
  match bs with
  | [] => cases failure <;> simp [readAllFrom]
  | b :: bs =>
    rw [readAllFrom, readAllFrom]
    cases message failure b bs with
    | error e => simp
    | ok t =>
      -- The two sides go on after different bodies, so the rest is compared with `readAll` twice.
      simp only
      rw [readAllFrom_eq (t.value :: done) t.rest, readAllFrom_eq [t.value] t.rest]
      simp
termination_by bs.length
decreasing_by
  · exact Nat.lt_succ_of_le t.le_bound
  · exact Nat.lt_succ_of_le t.le_bound

/-- **All messages are what `read` gives, call after call,** up to a clean end or an error. -/
theorem readAll_eq (bs : List UInt8) : readAll failure bs =
    match read failure bs with
    | .error e => ([], some e)
    | .ok none => ([], none)
    | .ok (some (body, rest)) => (body :: (readAll failure rest).1, (readAll failure rest).2) := by
  cases bs with
  | nil => cases failure <;> simp [readAll, readAllFrom, read]
  | cons b bs =>
    rw [readAll, readAllFrom, read]
    cases message failure b bs with
    | error e => rfl
    | ok t => exact readAllFrom_eq failure [t.value] t.rest

end Steps

/-! ### Streams -/

theorem Sink.write_unlimited (stored body : List UInt8) :
    Sink.write ⟨stored, none, none⟩ body = (⟨stored ++ encode body, none, none⟩, .ok ()) := rfl

/-- What a sink without limits stores when the bodies are written to it, one after the other. -/
def written (bodies : List (List UInt8)) : List UInt8 :=
  (bodies.foldl (fun s body => (s.write body).1) Sink.unlimited).stored

theorem foldl_write_unlimited (stored : List UInt8) (bodies : List (List UInt8)) :
    bodies.foldl (fun s body => (s.write body).1) (Sink.mk stored none none) =
      Sink.mk (stored ++ bodies.flatMap encode) none none := by
  induction bodies generalizing stored with
  | nil => simp
  | cons body bodies ih =>
    rw [List.foldl_cons, Sink.write_unlimited]
    show bodies.foldl _ (Sink.mk (stored ++ encode body) none none) = _
    rw [ih, List.flatMap_cons, List.append_assoc]

theorem written_eq (bodies : List (List UInt8)) : written bodies = bodies.flatMap encode := by
  rw [written, Sink.unlimited, foldl_write_unlimited, List.nil_append]

theorem readAll_flatMap (failure : Option String) {bodies : List (List UInt8)}
    (h : ∀ body ∈ bodies, body.length ≤ maxBody) (rest : List UInt8) :
    readAll failure (bodies.flatMap encode ++ rest) =
      (bodies ++ (readAll failure rest).1, (readAll failure rest).2) := by
  induction bodies with
  | nil => rfl
  | cons body bodies ih =>
    have hbody : body.length ≤ maxBody := h body List.mem_cons_self
    have hinteger : body.length ≤ Decimal.maxInteger := Nat.le_trans hbody (by decide)
    rw [List.flatMap_cons, List.append_assoc, readAll_eq, read_encode hinteger,
      if_neg (Nat.not_lt.mpr hbody)]
    simp only [ih fun b hb => h b (List.mem_cons_of_mem body hb), List.cons_append]

theorem readAll_flatMap_encode {bodies : List (List UInt8)}
    (h : ∀ body ∈ bodies, body.length ≤ maxBody) :
    readAll none (bodies.flatMap encode) = (bodies, none) := by
  have hread := readAll_flatMap none h []
  rwa [List.append_nil, readAll_eq none [], read, List.append_nil] at hread

/-- **A stream of messages is read back.** If no body is too large, all of them are read, in order
and byte for byte, and the stream ends cleanly. Otherwise the bodies before the first that is too
large are read, and then its size is reported. -/
theorem readAll_written (bodies : List (List UInt8)) :
    ((∀ body ∈ bodies, body.length ≤ maxBody) → readAll none (written bodies) = (bodies, none)) ∧
    ∀ before body after, bodies = before ++ body :: after →
      (∀ b ∈ before, b.length ≤ maxBody) → maxBody < body.length →
      body.length < 0x8000000000000000 →
      readAll none (written bodies) = (before, some (.tooLarge body.length)) := by
  rw [written_eq]
  constructor
  · intro hall
    exact readAll_flatMap_encode hall
  · rintro before body after rfl hbefore hlarge hlength
    have hinteger : body.length ≤ Decimal.maxInteger := by
      unfold Decimal.maxInteger
      omega
    rw [List.flatMap_append, List.flatMap_cons, readAll_flatMap none hbefore, readAll_eq,
      read_encode hinteger, if_pos hlarge]
    simp

end LanguageServer.Frame
