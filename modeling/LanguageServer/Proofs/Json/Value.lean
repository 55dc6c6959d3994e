import LanguageServer.Proofs.Json.Scalar

/-! # Printed values are read back

A value that holds no floating-point number, whose integers fit 64 bits and whose objects have their
members in order is *canonical*. The reader gives back every canonical value that nests within its
limit, and an object with canonical values under keys in any order is read as the ordered one.

* `moreElements_step`, `moreMembers_step`: one round of the loops;
* `ReadsAs`, `Readable`: what a reader makes of a printed value;
* `Gathers`, `members_gather`: a state that is carried along over printed members;
* `insertAll_of_increasing`, `get?_ofMembers_eq_none`: objects by their keys;
* `Canonical`, `canonical_ofMembers`: the values that survive, and how objects among them are built;
* `Canonical.readable`: a canonical value in front of any bytes, by induction on its nesting;
* `decode_object`: a whole text. -/

namespace LanguageServer.Json

open LanguageServer.Text

/-! ### The loops -/

section Loops

variable {σ : Type} {bound : Nat} {state next : σ} {after rest : List UInt8}

theorem skipSpace_cons {b : UInt8} (hb : isSpace b = false) (bs : List UInt8) :
    skipSpace (b :: bs) = b :: bs := List.dropWhile_cons_of_neg (by simp [hb])

@[elab_as_elim] theorem skipSpace_elim {b : UInt8} {bs : List UInt8} (hb : isSpace b = false)
    {motive : (s : List UInt8) → (h : s.length ≤ (b :: bs).length) → Prop}
    (h : ∀ hle, motive (b :: bs) hle) :
    motive (skipSpace (b :: bs)) (length_skipSpace_le (b :: bs)) := by
  generalize length_skipSpace_le (b :: bs) = hskip
  revert hskip
  rw [skipSpace_cons hb]
  exact h

section Elements

variable {element : σ → Reader σ}

theorem moreElements_end (h : (byte ']' :: rest).length ≤ bound) :
    Gives (moreElements element state (byte ']' :: rest) h) state rest := by
  unfold moreElements
  refine skipSpace_elim rfl fun _ => ?_
  exact ⟨_, rfl⟩

theorem moreElements_step {c : UInt8} (hspace : isSpace c = false) (hc : c ≠ byte ']')
    (helement : Gives (element state (c :: after)) next rest)
    (h : (byte ',' :: c :: after).length ≤ bound) (h' : rest.length ≤ bound) :
    moreElements element state (byte ',' :: c :: after) h =
      moreElements element next rest h' := by
  obtain ⟨hrest, hread⟩ := helement
  conv => lhs; unfold moreElements
  refine skipSpace_elim rfl fun _ => ?_
  simp only [if_neg (show byte ',' ≠ byte ']' by decide), if_true]
  refine skipSpace_elim hspace fun _ => ?_
  simp only [if_neg hc, hread]

theorem elements_start {c : UInt8} (hspace : isSpace c = false) (hc : c ≠ byte ']')
    (helement : Gives (element state (c :: after)) next rest)
    (h : (c :: after).length ≤ bound) (h' : rest.length ≤ bound) :
    elements element state (c :: after) h = moreElements element next rest h' := by
  obtain ⟨hrest, hread⟩ := helement
  unfold elements
  refine skipSpace_elim hspace fun _ => ?_
  simp only [if_neg hc, hread]

theorem elements_empty (h : (byte ']' :: rest).length ≤ bound) :
    Gives (elements element state (byte ']' :: rest) h) state rest := by
  unfold elements
  refine skipSpace_elim rfl fun _ => ?_
  exact ⟨_, rfl⟩

end Elements

section Members

variable {member : σ → Reader σ}

theorem moreMembers_end (h : (byte '\x7d' :: rest).length ≤ bound) :
    Gives (moreMembers member state (byte '\x7d' :: rest) h) state rest := by
  unfold moreMembers
  refine skipSpace_elim rfl fun _ => ?_
  exact ⟨_, rfl⟩

theorem moreMembers_step (hmember : Gives (member state after) next rest)
    (h : (byte ',' :: byte '"' :: after).length ≤ bound) (h' : rest.length ≤ bound) :
    moreMembers member state (byte ',' :: byte '"' :: after) h =
      moreMembers member next rest h' := by
  obtain ⟨hrest, hread⟩ := hmember
  conv => lhs; unfold moreMembers
  refine skipSpace_elim rfl fun _ => ?_
  simp only [if_neg (show byte ',' ≠ byte '\x7d' by decide), if_true]
  refine skipSpace_elim rfl fun _ => ?_
  simp only [if_true, hread]

theorem members_start (hmember : Gives (member state after) next rest)
    (h : (byte '"' :: after).length ≤ bound) (h' : rest.length ≤ bound) :
    members member state (byte '"' :: after) h = moreMembers member next rest h' := by
  obtain ⟨hrest, hread⟩ := hmember
  unfold members
  refine skipSpace_elim rfl fun _ => ?_
  simp only [if_neg (show byte '"' ≠ byte '\x7d' by decide), if_true, hread]

theorem members_empty (h : (byte '\x7d' :: rest).length ≤ bound) :
    Gives (members member state (byte '\x7d' :: rest) h) state rest := by
  unfold members
  refine skipSpace_elim rfl fun _ => ?_
  exact ⟨_, rfl⟩

end Members

end Loops

/-- The items take the first state to the last, one step each. -/
inductive Gathers {σ τ : Type} (Step : σ → τ → σ → Prop) : σ → List τ → σ → Prop
  | nil {s : σ} : Gathers Step s [] s
  | cons {s next last : σ} {a : τ} {as : List τ} (hfirst : Step s a next)
    (hrest : Gathers Step next as last) : Gathers Step s (a :: as) last

theorem Gathers.keeps {σ τ : Type} {Step : σ → τ → σ → Prop} {I : σ → Prop}
    (hstep : ∀ s a next, Step s a next → I s → I next) {s last : σ} {as : List τ}
    (h : Gathers Step s as last) (hs : I s) : I last := by
  induction h with
  | nil => exact hs
  | cons hfirst _ ih => exact ih (hstep _ _ _ hfirst hs)

theorem Gathers.append {σ τ : Type} {Step : σ → τ → σ → Prop} {s middle last : σ} {as bs : List τ}
    (h : Gathers Step s as middle) (h' : Gathers Step middle bs last) :
    Gathers Step s (as ++ bs) last := by
  induction h with
  | nil => exact h'
  | cons hfirst _ ih => exact .cons hfirst (ih h')

/-! ### Items -/

/-- The bytes of printed items, each after a comma. -/
def afterCommas (items : List String) : List UInt8 :=
  items.flatMap fun s => byte ',' :: Utf8.ofString s

theorem ofString_intercalate (s : String) (items : List String) :
    Utf8.ofString (",".intercalate (s :: items)) = Utf8.ofString s ++ afterCommas items := by
  induction items generalizing s with
  | nil => simp [afterCommas]
  | cons t items ih =>
    rw [String.intercalate_cons_cons, Utf8.ofString_append, ih, Utf8.ofString_append,
      List.append_assoc]
    rfl

theorem stops_afterCommas (items : List String) {b : UInt8} {rest : List UInt8}
    (hb : isDigit b = false ∧ b ≠ byte '.' ∧ b ≠ byte 'e' ∧ b ≠ byte 'E') :
    Stops (afterCommas items ++ b :: rest) := by
  cases items with
  | nil => exact stops_cons hb
  | cons s items => exact stops_cons (by decide)

/-- The reader gives back the value that was printed, whatever follows it. -/
def Readable (reader : Reader Json) (v : Json) : Prop :=
  ∃ b bs, Utf8.ofString v.print = b :: bs ∧ isSpace b = false ∧ b ≠ byte ']' ∧
    ∀ rest, Stops rest → Gives (reader (b :: (bs ++ rest))) v rest

/-- The reader makes `a` of the printed value, whatever follows it. -/
def ReadsAs {α : Type} (reader : Reader α) (v : Json) (a : α) : Prop :=
  ∀ rest, Stops rest → Gives (reader (Utf8.ofString v.print ++ rest)) a rest

theorem Readable.readsAs {reader : Reader Json} {v : Json} (h : Readable reader v) :
    ReadsAs reader v v := by
  obtain ⟨b, bs, hbytes, -, -, hread⟩ := h
  intro rest hrest
  rw [hbytes]
  exact hread rest hrest

theorem printAll_eq_map (vs : List Json) : printAll vs = vs.map print := by
  induction vs with
  | nil => rfl
  | cons v vs ih => rw [printAll, ih, List.map_cons]

/-- The text of a member. -/
def memberText (m : String × Json) : String := quote m.1 ++ ":" ++ m.2.print

theorem printMembers_eq_map (ms : List (String × Json)) : printMembers ms = ms.map memberText := by
  induction ms with
  | nil => rfl
  | cons m ms ih => rw [printMembers, ih, List.map_cons, memberText]

section Items

variable {nested : Reader Json} {bound : Nat} {rest : List UInt8}

theorem moreElements_values (read vs : List Json) (hvs : ∀ v ∈ vs, Readable nested v)
    (h : (afterCommas (vs.map print) ++ byte ']' :: rest).length ≤ bound) :
    Gives (moreElements (nextElement nested) read
      (afterCommas (vs.map print) ++ byte ']' :: rest) h) (vs.reverse ++ read) rest := by
  induction vs generalizing read with
  | nil => exact moreElements_end h
  | cons v vs ih =>
    obtain ⟨b, bs, hbytes, hspace, hb, hread⟩ := hvs v List.mem_cons_self
    have hstops : Stops (afterCommas (vs.map print) ++ byte ']' :: rest) :=
      stops_afterCommas _ (by decide)
    have hitem := (hread _ hstops).map fun w => w :: read
    have hsplit : afterCommas ((v :: vs).map print) ++ byte ']' :: rest =
        byte ',' :: b :: (bs ++ (afterCommas (vs.map print) ++ byte ']' :: rest)) := by
      simp [afterCommas, hbytes]
    simp only [hsplit] at h ⊢
    have h' : (afterCommas (vs.map print) ++ byte ']' :: rest).length ≤ bound := by
      simp only [List.length_cons, List.length_append] at h ⊢
      omega
    rw [moreElements_step hspace hb hitem h h', List.reverse_cons, List.append_assoc]
    exact ih (v :: read) (fun w hw => hvs w (List.mem_cons_of_mem v hw)) h'

theorem elements_values (vs : List Json) (hvs : ∀ v ∈ vs, Readable nested v)
    (h : (Utf8.ofString (",".intercalate (vs.map print)) ++ byte ']' :: rest).length ≤ bound) :
    Gives (elements (nextElement nested) []
      (Utf8.ofString (",".intercalate (vs.map print)) ++ byte ']' :: rest) h) vs.reverse rest := by
  cases vs with
  | nil => exact elements_empty h
  | cons v vs =>
    obtain ⟨b, bs, hbytes, hspace, hb, hread⟩ := hvs v List.mem_cons_self
    have hstops : Stops (afterCommas (vs.map print) ++ byte ']' :: rest) :=
      stops_afterCommas _ (by decide)
    have hitem := (hread _ hstops).map fun w => [w]
    have hsplit : Utf8.ofString (",".intercalate ((v :: vs).map print)) ++ byte ']' :: rest =
        b :: (bs ++ (afterCommas (vs.map print) ++ byte ']' :: rest)) := by
      rw [List.map_cons, ofString_intercalate, hbytes]
      simp
    simp only [hsplit] at h ⊢
    have h' : (afterCommas (vs.map print) ++ byte ']' :: rest).length ≤ bound := by
      simp only [List.length_cons, List.length_append] at h ⊢
      omega
    rw [elements_start hspace hb hitem h h', List.reverse_cons]
    exact moreElements_values [v] vs (fun w hw => hvs w (List.mem_cons_of_mem v hw)) h'

/-- The bytes of a member, after the opening quote of its key. -/
def memberBytes (m : String × Json) : List UInt8 :=
  Utf8.encode (m.1.toList.flatMap escapeChar) ++ byte '"' :: byte ':' :: Utf8.ofString m.2.print

theorem ofString_quote (s : String) : Utf8.ofString (quote s) =
    byte '"' :: (Utf8.encode (s.toList.flatMap escapeChar) ++ [byte '"']) := by
  rw [quote, Utf8.ofString, String.toList_ofList, List.cons_append, Utf8.encode_cons,
    Utf8.encode_append]
  rfl

theorem ofString_memberText (m : String × Json) :
    Utf8.ofString (memberText m) = byte '"' :: memberBytes m := by
  rw [memberText, Utf8.ofString_append, Utf8.ofString_append, ofString_quote, memberBytes]
  simp only [List.append_assoc, List.cons_append]
  rfl

theorem colon_cons (h : (byte ':' :: rest).length ≤ bound) :
    Gives (colon (byte ':' :: rest) h) () rest := by
  unfold colon
  refine skipSpace_elim rfl fun _ => ?_
  exact ⟨_, rfl⟩

theorem key_memberBytes (m : String × Json) (rest : List UInt8) :
    ∃ hkey, stringText (memberBytes m ++ rest) (length_le_self _) =
      .ok ⟨m.1, byte ':' :: (Utf8.ofString m.2.print ++ rest), hkey⟩ := by
  have hsplit : memberBytes m ++ rest = Utf8.encode (m.1.toList.flatMap escapeChar) ++
      byte '"' :: byte ':' :: (Utf8.ofString m.2.print ++ rest) := by simp [memberBytes]
  generalize memberBytes m ++ rest = bs at hsplit
  subst hsplit
  exact stringText_encode m.1 (length_le_self _)

section Members

variable {σ : Type} {member : σ → Reader σ}

/-- A printed member takes the state to the next one, whatever stops it. -/
def Feeds (member : σ → Reader σ) (s : σ) (m : String × Json) (next : σ) : Prop :=
  ∀ rest, Stops rest → Gives (member s (memberBytes m ++ rest)) next rest

theorem moreMembers_gather {s last : σ} {ms : List (String × Json)}
    (hms : Gathers (Feeds member) s ms last)
    (h : (afterCommas (ms.map memberText) ++ byte '\x7d' :: rest).length ≤ bound) :
    Gives (moreMembers member s (afterCommas (ms.map memberText) ++ byte '\x7d' :: rest) h)
      last rest := by
  induction hms with
  | nil => exact moreMembers_end h
  | @cons s next last m ms hfirst _ ih =>
    have hstops : Stops (afterCommas (ms.map memberText) ++ byte '\x7d' :: rest) :=
      stops_afterCommas _ (by decide)
    have hsplit : afterCommas ((m :: ms).map memberText) ++ byte '\x7d' :: rest =
        byte ',' :: byte '"' ::
          (memberBytes m ++ (afterCommas (ms.map memberText) ++ byte '\x7d' :: rest)) := by
      simp [afterCommas, ofString_memberText]
    simp only [hsplit] at h ⊢
    have h' : (afterCommas (ms.map memberText) ++ byte '\x7d' :: rest).length ≤ bound := by
      simp only [List.length_cons, List.length_append] at h ⊢
      omega
    rw [moreMembers_step (hfirst _ hstops) h h']
    exact ih h'

/-- **Printed members are read,** each where the one before it left the state. -/
theorem members_gather {s last : σ} {ms : List (String × Json)}
    (hms : Gathers (Feeds member) s ms last)
    (h : (Utf8.ofString (",".intercalate (ms.map memberText)) ++ byte '\x7d' :: rest).length ≤
      bound) :
    Gives (members member s
      (Utf8.ofString (",".intercalate (ms.map memberText)) ++ byte '\x7d' :: rest) h)
      last rest := by
  cases hms with
  | nil => exact members_empty h
  | @cons _ next _ m ms hfirst hrest =>
    have hstops : Stops (afterCommas (ms.map memberText) ++ byte '\x7d' :: rest) :=
      stops_afterCommas _ (by decide)
    have hsplit : Utf8.ofString (",".intercalate ((m :: ms).map memberText)) ++
        byte '\x7d' :: rest = byte '"' ::
          (memberBytes m ++ (afterCommas (ms.map memberText) ++ byte '\x7d' :: rest)) := by
      rw [List.map_cons, ofString_intercalate, ofString_memberText]
      simp
    simp only [hsplit] at h ⊢
    have h' : (afterCommas (ms.map memberText) ++ byte '\x7d' :: rest).length ≤ bound := by
      simp only [List.length_cons, List.length_append] at h ⊢
      omega
    rw [members_start (hfirst _ hstops) h h']
    exact moreMembers_gather hrest h'

end Members

theorem feeds_nextMember {m : String × Json} (hm : Readable nested m.2)
    (read : List (String × Json)) :
    Feeds (nextMember nested) read m (insert m.1 m.2 read) := by
  intro rest hrest
  obtain ⟨hkey, hkeyText⟩ := key_memberBytes m rest
  obtain ⟨hmark, hcolon⟩ := colon_cons hkey
  obtain ⟨hvalue, hread⟩ := hm.readsAs rest hrest
  rw [nextMember, hkeyText]
  simp only [hcolon, hread]
  exact ⟨_, rfl⟩

/-- The members after those before, each in its place. -/
def insertAll (before ms : List (String × Json)) : List (String × Json) :=
  ms.foldl (fun done m => insert m.1 m.2 done) before

theorem gathers_insertAll {ms : List (String × Json)} (hms : ∀ m ∈ ms, Readable nested m.2)
    (read : List (String × Json)) :
    Gathers (Feeds (nextMember nested)) read ms (insertAll read ms) := by
  induction ms generalizing read with
  | nil => exact .nil
  | cons m ms ih =>
    obtain ⟨hm, hms⟩ := List.forall_mem_cons.mp hms
    exact .cons (feeds_nextMember hm read) (ih hms _)

end Items

/-! ### Order of members -/

theorem textBefore_cons {c d : Char} {cs ds : List Char} : textBefore (c :: cs) (d :: ds) = true ↔
    c.toNat < d.toNat ∨ c = d ∧ textBefore cs ds = true := by
  rw [textBefore]
  split_ifs with hc
  · subst hc
    simp
  · simp [hc]

theorem textBefore_irrefl (cs : List Char) : textBefore cs cs = false := by
  induction cs with
  | nil => rfl
  | cons c cs ih => rw [textBefore, if_pos rfl, ih]

theorem textBefore_trans {as bs cs : List Char} (hab : textBefore as bs = true)
    (hbc : textBefore bs cs = true) : textBefore as cs = true := by
  induction as generalizing bs cs with
  | nil =>
    cases cs with
    | nil => cases bs <;> cases hbc
    | cons c cs => rfl
  | cons a as ih =>
    cases bs with
    | nil => cases hab
    | cons b bs =>
      cases cs with
      | nil => cases hbc
      | cons c cs =>
        rw [textBefore_cons] at hab hbc ⊢
        rcases hab with hab | ⟨rfl, hab⟩
        · rcases hbc with hbc | ⟨rfl, hbc⟩
          · exact Or.inl (Nat.lt_trans hab hbc)
          · exact Or.inl hab
        · rcases hbc with hbc | ⟨rfl, hbc⟩
          · exact Or.inl hbc
          · exact Or.inr ⟨rfl, ih hab hbc⟩

theorem textBefore_total {as bs : List Char} (hab : textBefore as bs = false) (hne : as ≠ bs) :
    textBefore bs as = true := by
  induction as generalizing bs with
  | nil =>
    cases bs with
    | nil => exact absurd rfl hne
    | cons b bs => cases hab
  | cons a as ih =>
    cases bs with
    | nil => rfl
    | cons b bs =>
      rw [← Bool.not_eq_true, textBefore_cons, not_or] at hab
      rw [textBefore_cons]
      by_cases hsame : a = b
      · subst hsame
        have hrest : textBefore as bs = false :=
          Bool.eq_false_iff.mpr fun h => hab.2 ⟨rfl, h⟩
        exact Or.inr ⟨rfl, ih hrest fun heq => hne (congrArg (a :: ·) heq)⟩
      · have hcode : a.toNat ≠ b.toNat := fun heq => hsame (Char.toNat_inj.mp heq)
        exact Or.inl (Nat.lt_of_le_of_ne (Nat.not_lt.mp hab.1) (Ne.symm hcode))

/-- The keys are in increasing order. -/
def Increasing (ms : List (String × Json)) : Prop :=
  ms.Pairwise fun m n => keyBefore m.1 n.1 = true

theorem insert_of_forall_before {key : String} {value : Json} {ms : List (String × Json)}
    (h : ∀ m ∈ ms, keyBefore m.1 key = true) : insert key value ms = ms ++ [(key, value)] := by
  induction ms with
  | nil => rfl
  | cons m ms ih =>
    have hm := h m List.mem_cons_self
    have hnot : ¬ keyBefore key m.1 = true := by
      intro hback
      have hself := textBefore_trans hm hback
      rw [textBefore_irrefl] at hself
      cases hself
    have hne : key ≠ m.1 := by
      rintro rfl
      exact hnot hm
    rw [insert, if_neg hnot, if_neg hne, ih fun n hn => h n (List.mem_cons_of_mem m hn)]
    rfl

theorem insertAll_of_increasing (before : List (String × Json)) {ms : List (String × Json)}
    (h : Increasing (before ++ ms)) : insertAll before ms = before ++ ms := by
  induction ms generalizing before with
  | nil => simp [insertAll]
  | cons m ms ih =>
    have hbefore : ∀ n ∈ before, keyBefore n.1 m.1 = true := fun n hn =>
      (List.pairwise_append.mp h).2.2 n hn m List.mem_cons_self
    have hsplit : before ++ m :: ms = (before ++ [(m.1, m.2)]) ++ ms := by simp
    rw [hsplit] at h ⊢
    rw [← ih _ h, insertAll, List.foldl_cons, insert_of_forall_before hbefore]
    rfl

theorem ofMembers_of_increasing {ms : List (String × Json)} (h : Increasing ms) :
    ofMembers ms = .object ms := congrArg object (insertAll_of_increasing [] h)

theorem mem_of_mem_insert {key : String} {value : Json} {m : String × Json}
    {ms : List (String × Json)} (h : m ∈ insert key value ms) : m = (key, value) ∨ m ∈ ms := by
  induction ms with
  | nil => exact Or.inl (List.mem_singleton.mp h)
  | cons n ms ih =>
    rw [insert] at h
    split_ifs at h
    · exact List.mem_cons.mp h
    · exact (List.mem_cons.mp h).imp_right (List.mem_cons_of_mem n)
    · rcases List.mem_cons.mp h with rfl | hm
      · exact Or.inr List.mem_cons_self
      · exact (ih hm).imp_right (List.mem_cons_of_mem n)

theorem increasing_insert {key : String} {value : Json} {ms : List (String × Json)}
    (h : Increasing ms) : Increasing (insert key value ms) := by
  induction ms with
  | nil => exact List.pairwise_singleton _ _
  | cons m ms ih =>
    obtain ⟨hm, hms⟩ := List.pairwise_cons.mp h
    rw [insert]
    split_ifs with hless hsame
    · refine List.pairwise_cons.mpr ⟨?_, h⟩
      intro n hn
      rcases List.mem_cons.mp hn with rfl | hn
      · exact hless
      · exact textBefore_trans hless (hm n hn)
    · subst hsame
      exact List.pairwise_cons.mpr ⟨hm, hms⟩
    · have hne : key.toList ≠ m.1.toList := fun heq => hsame (String.toList_injective heq)
      have hgreater : keyBefore m.1 key = true :=
        textBefore_total (Bool.eq_false_iff.mpr hless) hne
      refine List.pairwise_cons.mpr ⟨?_, ih hms⟩
      intro n hn
      rcases mem_of_mem_insert hn with rfl | hn
      · exact hgreater
      · exact hm n hn

theorem increasing_insertAll {before ms : List (String × Json)} (h : Increasing before) :
    Increasing (insertAll before ms) := by
  induction ms generalizing before with
  | nil => exact h
  | cons m ms ih => exact ih (increasing_insert h)

theorem mem_of_mem_insertAll {before ms : List (String × Json)} {m : String × Json}
    (h : m ∈ insertAll before ms) : m ∈ before ∨ m ∈ ms := by
  induction ms generalizing before with
  | nil => exact Or.inl h
  | cons n ms ih =>
    rcases ih h with hm | hm
    · rcases mem_of_mem_insert hm with rfl | hm
      · exact Or.inr List.mem_cons_self
      · exact Or.inl hm
    · exact Or.inr (List.mem_cons_of_mem n hm)

theorem lookup_cons_eq_ite (name : String) (m : String × Json) (ms : List (String × Json)) :
    (m :: ms).lookup name = if name = m.1 then some m.2 else ms.lookup name := by
  rw [List.lookup_cons]
  split
  · next h => rw [if_pos (beq_iff_eq.mp h)]
  · next h => rw [if_neg (beq_eq_false_iff_ne.mp h)]

theorem lookup_insert (key : String) (value : Json) (ms : List (String × Json)) (name : String) :
    (insert key value ms).lookup name = if name = key then some value else ms.lookup name := by
  induction ms with
  | nil => exact lookup_cons_eq_ite name (key, value) []
  | cons m ms ih =>
    rw [insert, lookup_cons_eq_ite name m ms]
    split
    · rw [lookup_cons_eq_ite, lookup_cons_eq_ite]
    split
    · next hsame =>
      rw [lookup_cons_eq_ite, hsame]
      split <;> rfl
    · next hne =>
      rw [lookup_cons_eq_ite, ih]
      by_cases h : name = m.1
      · rw [if_pos h, if_pos h, if_neg (h ▸ Ne.symm hne)]
      · rw [if_neg h, if_neg h]

theorem get?_ofMembers_eq_none {ms : List (String × Json)} {name : String} :
    (ofMembers ms).get? name = none ↔ ∀ m ∈ ms, m.1 ≠ name := by
  have hall : ∀ before : List (String × Json), (insertAll before ms).lookup name = none ↔
      before.lookup name = none ∧ ∀ m ∈ ms, m.1 ≠ name := by
    induction ms with
    | nil => exact fun before => by simp [insertAll]
    | cons m ms ih =>
      intro before
      refine (ih (insert m.1 m.2 before)).trans ?_
      rw [lookup_insert, List.forall_mem_cons]
      by_cases h : name = m.1
      · simp [h]
      · simp [h, Ne.symm h]
  exact (hall []).trans (and_iff_right rfl)

/-! ### Values -/

/-- A value that survives printing and reading: no floating-point number, integers of 64 bits with
or without a sign, members in order, and at most the given number of levels. -/
def Canonical : Nat → Json → Prop
  | _, null => True
  | _, bool _ => True
  | _, integer n => -0x8000000000000000 ≤ n ∧ n < 0x10000000000000000
  | _, float _ => False
  | _, string _ => True
  | 0, array _ => False
  | 0, object _ => False
  | depth + 1, array vs => ∀ v ∈ vs, Canonical depth v
  | depth + 1, object ms => Increasing ms ∧ ∀ m ∈ ms, Canonical depth m.2

section Canonical

variable (depth : Nat)

@[simp] theorem canonical_null : Canonical depth null := by cases depth <;> trivial

@[simp] theorem canonical_bool (value : Bool) : Canonical depth (bool value) := by
  cases depth <;> trivial

@[simp] theorem canonical_string (s : String) : Canonical depth (string s) := by
  cases depth <;> trivial

@[simp] theorem canonical_integer (n : Int) : Canonical depth (integer n) ↔
    -0x8000000000000000 ≤ n ∧ n < 0x10000000000000000 := by
  cases depth <;> rfl

@[simp] theorem canonical_array (vs : List Json) :
    Canonical (depth + 1) (array vs) ↔ ∀ v ∈ vs, Canonical depth v := Iff.rfl

end Canonical

theorem canonical_ofMembers {depth : Nat} {ms : List (String × Json)}
    (h : ∀ m ∈ ms, Canonical depth m.2) : Canonical (depth + 1) (ofMembers ms) := by
  refine ⟨increasing_insertAll List.Pairwise.nil, ?_⟩
  intro m hm
  rcases mem_of_mem_insertAll hm with hnil | hm
  · cases hnil
  · exact h m hm

section Values

variable {depth : Nat} {rest : List UInt8}

theorem literal_append (word : List UInt8) {bound : Nat} (h : (word ++ rest).length ≤ bound) :
    Gives (literal word (word ++ rest) h) () rest := by
  induction word with
  | nil => exact ⟨h, rfl⟩
  | cons w word ih =>
    simp only [List.cons_append] at h ⊢
    rw [literal, if_pos rfl]
    exact ih (tail_le h)

theorem valueWith_scalar {nested : Option (Reader Json)} {b : UInt8} {bs : List UInt8} {v : Json}
    (hspace : isSpace b = false) (harray : b ≠ byte '[') (hobject : b ≠ byte '\x7b')
    (hread : ∀ h : bs.length ≤ (b :: bs).length, ∃ scan, scalar? b bs h = some scan ∧
      Gives scan v rest) : Gives (valueWith nested (b :: bs)) v rest := by
  unfold valueWith
  refine skipSpace_elim hspace fun hle => ?_
  obtain ⟨scan, hscan, hgives⟩ := hread (tail_le_length hle)
  simp only [if_neg harray, if_neg hobject, hscan]
  exact hgives

theorem value_eq_valueWith (depth : Nat) : ∃ nested, value depth = valueWith nested := by
  cases depth with
  | zero => exact ⟨none, rfl⟩
  | succ depth => exact ⟨some (value depth), rfl⟩

theorem readable_scalar {v : Json} (b : UInt8) (bs : List UInt8)
    (hbytes : Utf8.ofString v.print = b :: bs) (hspace : isSpace b = false)
    (hopen : b ≠ byte '[' ∧ b ≠ byte '\x7b' ∧ b ≠ byte ']')
    (hread : ∀ rest, Stops rest → ∀ (bound : Nat) (h : (bs ++ rest).length ≤ bound),
      ∃ scan, scalar? b (bs ++ rest) h = some scan ∧ Gives scan v rest) :
    Readable (value depth) v := by
  obtain ⟨nested, hvalue⟩ := value_eq_valueWith depth
  refine ⟨b, bs, hbytes, hspace, hopen.2.2, ?_⟩
  intro rest hrest
  rw [hvalue]
  exact valueWith_scalar hspace hopen.1 hopen.2.1 (hread rest hrest _)

theorem readable_null : Readable (value depth) null := by
  refine readable_scalar (byte 'n') (bytesOf "ull") rfl rfl (by decide) ?_
  intro rest _ bound h
  exact ⟨_, rfl, (literal_append (bytesOf "ull") h).map fun _ => null⟩

theorem readable_bool (value : Bool) : Readable (Json.value depth) (bool value) := by
  cases value with
  | true =>
    refine readable_scalar (byte 't') (bytesOf "rue") rfl rfl (by decide) ?_
    intro rest _ bound h
    exact ⟨_, rfl, (literal_append (bytesOf "rue") h).map fun _ => bool true⟩
  | false =>
    refine readable_scalar (byte 'f') (bytesOf "alse") rfl rfl (by decide) ?_
    intro rest _ bound h
    exact ⟨_, rfl, (literal_append (bytesOf "alse") h).map fun _ => bool false⟩

theorem readable_string (s : String) : Readable (value depth) (string s) := by
  refine readable_scalar (byte '"') _ (ofString_quote s) rfl (by decide) ?_
  intro rest _ bound h
  simp only [List.append_assoc, List.singleton_append] at h ⊢
  exact ⟨_, rfl, (stringText_encode s h).map string⟩

theorem isSpace_eq_false_of_isDigit {b : UInt8} (h : isDigit b = true) : isSpace b = false := by
  simp only [isSpace, Bool.or_eq_false_iff, beq_eq_false_iff_ne]
  refine ⟨⟨⟨?_, ?_⟩, ?_⟩, ?_⟩
  · exact ne_byte_of_isDigit (c := ' ') h (by decide)
  · exact ne_byte_of_isDigit (c := '\n') h (by decide)
  · exact ne_byte_of_isDigit (c := '\t') h (by decide)
  · exact ne_byte_of_isDigit (c := '\r') h (by decide)

theorem readable_integer {n : Int} (hlow : -0x8000000000000000 ≤ n)
    (hhigh : n < 0x10000000000000000) : Readable (value depth) (integer n) := by
  obtain ⟨b, bs, hbytes, hb, hread⟩ := scalar?_toString hlow hhigh
  have hfirst : isSpace b = false ∧ b ≠ byte '[' ∧ b ≠ byte '\x7b' ∧ b ≠ byte ']' := by
    rcases hb with rfl | hb
    · decide
    · refine ⟨isSpace_eq_false_of_isDigit hb, ?_, ?_, ?_⟩
      · exact ne_byte_of_isDigit hb (by decide)
      · exact ne_byte_of_isDigit hb (by decide)
      · exact ne_byte_of_isDigit hb (by decide)
  exact readable_scalar b bs hbytes hfirst.1 hfirst.2 hread

theorem ofString_array (vs : List Json) : Utf8.ofString (array vs).print =
    byte '[' :: (Utf8.ofString (",".intercalate (vs.map print)) ++ [byte ']']) := by
  rw [print, printAll_eq_map, Utf8.ofString_append, Utf8.ofString_append]
  rfl

theorem readable_array {vs : List Json} (h : ∀ v ∈ vs, Readable (value depth) v) :
    Readable (value (depth + 1)) (array vs) := by
  refine ⟨_, _, ofString_array vs, rfl, by decide, ?_⟩
  intro rest _
  rw [List.append_assoc, List.singleton_append, value]
  unfold valueWith
  refine skipSpace_elim rfl fun hle => ?_
  have hread := (elements_values vs h (tail_le_length hle)).map fun ws => array ws.reverse
  rw [List.reverse_reverse] at hread
  exact hread

theorem ofString_object (ms : List (String × Json)) : Utf8.ofString (object ms).print =
    byte '\x7b' :: (Utf8.ofString (",".intercalate (ms.map memberText)) ++ [byte '\x7d']) := by
  rw [print, printMembers_eq_map, Utf8.ofString_append, Utf8.ofString_append]
  rfl

/-- An object with its members in any order is read as the ordered one. -/
theorem value_object {ms : List (String × Json)} (h : ∀ m ∈ ms, Readable (value depth) m.2) :
    ∃ bs, Utf8.ofString (object ms).print = byte '\x7b' :: bs ∧ ∀ rest,
      Gives (value (depth + 1) (byte '\x7b' :: (bs ++ rest))) (ofMembers ms) rest := by
  refine ⟨_, ofString_object ms, ?_⟩
  intro rest
  rw [List.append_assoc, List.singleton_append, value]
  unfold valueWith
  refine skipSpace_elim rfl fun hle => ?_
  exact (members_gather (gathers_insertAll h []) (tail_le_length hle)).map object

/-- **A canonical value is read back,** whatever follows it. -/
theorem Canonical.readable {v : Json} (h : Canonical depth v) : Readable (value depth) v := by
  -- What stands inside an array or an object is read with one level less.
  induction depth generalizing v with
  | zero =>
    cases v with
    | null => exact readable_null
    | bool value => exact readable_bool value
    | integer n => exact readable_integer h.1 h.2
    | float x => exact absurd h id
    | string s => exact readable_string s
    | array vs => exact absurd h id
    | object ms => exact absurd h id
  | succ depth ih =>
    cases v with
    | null => exact readable_null
    | bool value => exact readable_bool value
    | integer n => exact readable_integer h.1 h.2
    | float x => exact absurd h id
    | string s => exact readable_string s
    | array vs => exact readable_array fun v hv => ih (h v hv)
    | object ms =>
      obtain ⟨bs, hbytes, hread⟩ := value_object fun m hm => ih (h.2 m hm)
      rw [ofMembers_of_increasing h.1] at hread
      exact ⟨_, bs, hbytes, rfl, by decide, fun rest _ => hread rest⟩

theorem decodeWith_of_gives {α : Type} {reader : Reader α} {text : List UInt8} {a : α}
    (h : Gives (reader text) a []) : decodeWith reader text = .ok a := by
  obtain ⟨hrest, hread⟩ := h
  rw [decodeWith, hread]
  rfl

theorem ReadsAs.decodeWith {α : Type} {reader : Reader α} {v : Json} {a : α}
    (h : ReadsAs reader v a) : decodeWith reader (Utf8.ofString v.print) = .ok a := by
  have hgives := h [] stops_nil
  rw [List.append_nil] at hgives
  exact decodeWith_of_gives hgives

theorem decode_object {ms : List (String × Json)}
    (h : ∀ m ∈ ms, Canonical (maxDepth - 1) m.2) :
    decode (Utf8.ofString (object ms).print) = .ok (ofMembers ms) := by
  obtain ⟨bs, hbytes, hread⟩ := value_object fun m hm => (h m hm).readable
  have hgives := hread []
  rw [List.append_nil, ← hbytes] at hgives
  exact decodeWith_of_gives hgives

end Values

end LanguageServer.Json
