import LanguageServer.Proofs.Document.Positions
import LanguageServer.Proofs.Handler.Reachable
import LanguageServer.Proofs.Script.Innermost

/-! # Hover

A hover goes from the store to a document, from its text to a program, from a position to an offset,
from there to a node and from the node back to positions. Each of these steps can fail with its own
message; what is left is about the innermost node at the offset, and its range is the node's.

* `hover_value`: the steps that can fail;
* `rangeAround_ofNode`: the way back from a node to its range;
* `hover_answers`: every hover in every state of a session. -/

namespace LanguageServer.Handler

open Script (Expr Innermost parse)

variable (functions : List Reference.Function)

/-- The answer to a hover over a position of a text that is open under some name. -/
def hoverText (text : String) (position : Position) : Answer :=
  let d := Document.create "" text 0
  match Script.parse text with
  | .error e => .error (.invalidParams e.message)
  | .ok e =>
    match d.indexOf position with
    | .error e => .error (.invalidParams e.message)
    | .ok index =>
      match e.tree.findAt index with
      | none => .error (.invalidParams "Could not find AST node at position")
      | some node => .ok (some (Hover.ofNode functions d node).toJson)

/-- **A hover depends on the text and the position alone.** -/
theorem hover_value (h : Handler) {params : Json} {target : Params.Target}
    (hdecode : decode Params.hover params = .ok target) (hfresh : h.store.AllFresh) :
    (h.handle (Language.script functions) "textDocument/hover" params).value.2 =
      match h.store.get? target.uri with
      | none => .error (.invalidParams DocumentError.notFound.message)
      | some d => hoverText functions d.text target.position := by
  show (h.hover (Language.script functions) params).value = _
  unfold hover
  rw [hdecode]
  simp only
  unfold nodeAt
  cases hd : h.store.get? target.uri with
  | none => rfl
  | some d =>
    -- the name and the version are no part of what follows
    obtain ⟨text, version, rfl⟩ : ∃ text version, d = Document.create target.uri text version :=
      ⟨d.text, d.version, hfresh.get? hd⟩
    have hindex : (Document.create target.uri text version).indexOf target.position =
        (Document.create "" text 0).indexOf target.position := rfl
    have hparse : (Language.script functions).parse text = (parse text).map Expr.tree := rfl
    have htext : (Document.create target.uri text version).text = text := rfl
    simp only [hoverText, htext, hparse, hindex]
    cases parse text with
    | error e => rfl
    | ok e =>
      cases (Document.create "" text 0).indexOf target.position with
      | error e => rfl
      | ok index =>
        simp only [Except.map]
        cases e.tree.findAt index with
        | none => rfl
        | some node => rfl

/-! ### The range -/

/-- **The range of a node around an offset:** its two ends are positions of the document, their
offsets are those of the node, and the offset is between them. -/
structure RangeAround (d : Document) (n : Expr) (index : Nat) (range : Range) : Prop where
  start : d.indexOf range.start = .ok n.span.start
  stop : d.indexOf range.stop = .ok n.span.stop
  start_le : n.span.start ≤ index
  lt_stop : index < n.span.stop
  start_holds : d.Holds range.start
  stop_holds : d.Holds range.stop

theorem rangeAround_ofNode {d : Document} {key : String} (hfresh : d.Fresh key) {tree n : Expr}
    (hparse : parse d.text = .ok tree) {index : Nat} (hn : Innermost tree index n)
    (hlimit : d.charCount < UInt32.size) :
    RangeAround d n index (Hover.ofNode functions d n).range := by
  have hlines : d.lineLengths ≠ [] := by
    rw [hfresh]
    exact Document.lineLengthsOf_ne_nil _
  have hcount : d.charCount = d.text.length := by
    rw [hfresh]
    exact Document.charCount_create _ _ _
  obtain ⟨hstart, hstop⟩ := Script.Span.holds_iff.mp hn.holds
  have hsize := Script.stop_le_of_parse hparse hn.mem
  have hle : n.span.start ≤ d.charCount := by omega
  have hle' : n.span.stop ≤ d.charCount := by omega
  exact ⟨Document.indexOf_positionAt hlines hlimit hle,
    Document.indexOf_positionAt hlines hlimit hle', hstart, hstop,
    Document.holds_positionAt hlines hlimit hle, Document.holds_positionAt hlines hlimit hle'⟩

/-! ### Every hover -/

/-- **What a hover over an open document has to answer.** It fails if the text is no program, if the
document does not have the line, or if the offset of the position is not in the text. Otherwise it
is about the innermost node at the offset, and its range is the node's. -/
def AnswersHover (d : Document) (position : Position) (answer : Answer) : Prop :=
  match parse d.text with
  | .error e => answer = .error ⟨-32602, e.message, none⟩
  | .ok tree =>
    if d.lineCount ≤ position.line.toNat then
      answer = .error
        ⟨-32602, "line " ++ toString position.line.toNat ++ " is out of range", none⟩
    else ∃ index, d.indexOf position = .ok index ∧
      (answer = .error ⟨-32602, "Could not find AST node at position", none⟩ ↔
        d.charCount ≤ index) ∧
      (index < d.charCount → ∃ n, Innermost tree index n ∧
        answer = .ok (some (Hover.ofNode functions d n).toJson) ∧
        (d.charCount < UInt32.size → RangeAround d n index (Hover.ofNode functions d n).range))

theorem answersHover_hoverText {d : Document} {key : String} (hfresh : d.Fresh key)
    (p : Position) : AnswersHover functions d p (hoverText functions d.text p) := by
  -- the name and the version are no part of what follows
  have hindex : (Document.create "" d.text 0).indexOf p = d.indexOf p :=
    (congrArg (fun d => d.indexOf p) hfresh).symm
  have hnode (n : Expr) :
      Hover.ofNode functions (Document.create "" d.text 0) n = Hover.ofNode functions d n :=
    (congrArg (fun d => Hover.ofNode functions d n) hfresh).symm
  have hcount : d.charCount = d.text.length := by
    rw [hfresh]
    exact Document.charCount_create _ _ _
  unfold AnswersHover hoverText
  simp only [hindex, hnode]
  cases hparse : parse d.text with
  | error e => rfl
  | ok tree =>
    simp only
    rw [Document.indexOf_eq]
    split
    · rfl
    · obtain ⟨hfound, hnone⟩ := Script.findAt_program hparse
        (d.lineStart p.line.toNat + p.character.toNat)
      generalize d.lineStart p.line.toNat + p.character.toNat = index at hfound hnone ⊢
      refine ⟨index, rfl, ?_⟩
      rw [← hcount] at hfound hnone
      rcases Nat.lt_or_ge index d.charCount with hlt | hge
      · obtain ⟨n, hfind, hinner⟩ := hfound hlt
        simp only [hfind]
        refine ⟨⟨nofun, fun hle => absurd hlt (Nat.not_lt.mpr hle)⟩, fun _ => ⟨n, hinner, rfl, ?_⟩⟩
        exact rangeAround_ofNode functions hfresh hparse hinner
      · simp only [hnone hge]
        exact ⟨⟨fun _ => hge, fun _ => rfl⟩, fun hlt => absurd hlt (Nat.not_lt.mpr hge)⟩

/-- The answer to a hover after calls of methods from the start of a session. -/
def hoverAfter (calls : List (String × Json)) (params : Json) : Answer :=
  ((after (Language.script functions) calls).handle (Language.script functions)
    "textDocument/hover" params).value.2

/-- **Hovers from end to end.** In every state of a session, the answer to a hover that can be
decoded depends on the text of the document and the position alone. -/
theorem hover_answers :
    (∃ reply : String → Position → Answer, ∀ calls params target d,
      decode Params.hover params = .ok target →
      (after (Language.script functions) calls).store.get? target.uri = some d →
      hoverAfter functions calls params = reply d.text target.position) ∧
    ∀ calls params target, decode Params.hover params = .ok target →
      match (after (Language.script functions) calls).store.get? target.uri with
      | none => hoverAfter functions calls params = .error ⟨-32602, "Document not found", none⟩
      | some d => AnswersHover functions d target.position (hoverAfter functions calls params) := by
  have hfresh (calls : List (String × Json)) := allFresh_after (Language.script functions) calls
  have hanswer (calls : List (String × Json)) {params : Json} {target : Params.Target}
      (hdecode : decode Params.hover params = .ok target) :
      hoverAfter functions calls params = _ :=
    hover_value functions (after (Language.script functions) calls) hdecode (hfresh calls)
  refine ⟨⟨hoverText functions, fun calls params target d hdecode hd => ?_⟩,
    fun calls params target hdecode => ?_⟩
  · rw [hanswer calls hdecode, hd]
  · rw [hanswer calls hdecode]
    cases hd : (after (Language.script functions) calls).store.get? target.uri with
    | none => rfl
    | some d => exact answersHover_hoverText functions ((hfresh calls).get? hd) _

/-- The second of two lines, with the document opened and edited before. -/
theorem hover_answers_second_line :
    let item (version : Int) (more : List (String × Json)) : String × Json :=
      ("textDocument", .object ([("uri", .string "a"), ("version", .integer version)] ++ more))
    let calls : List (String × Json) :=
      [("textDocument/didOpen",
        .object [item 1 [("languageId", .string ""), ("text", .string "")]]),
       ("textDocument/didChange",
        .object [item 2 [], ("contentChanges", .array [.object [("text", .string "x\ny")]])])]
    let params : Json := .object [item 2 [], ("position",
      .object [("character", .integer 0), ("line", .integer 1)])]
    let d := Document.create "a" "x\ny" 2
    let n : Expr := .identifier "y" ⟨2, 3⟩
    decode Params.hover params = .ok ⟨"a", ⟨1, 0⟩⟩ ∧
      (after (Language.script []) calls).store.get? "a" = some d ∧
      hoverAfter [] calls params = .ok (some (Hover.ofNode [] d n).toJson) ∧
      RangeAround d n 2 (Hover.ofNode [] d n).range := by
  intro item calls params d n
  have hdecode : decode Params.hover params = .ok ⟨"a", ⟨1, 0⟩⟩ := by rfl
  have hd : (after (Language.script []) calls).store.get? "a" = some d := by rfl
  have hparse : parse "x\ny" = .ok (.block [.identifier "x" ⟨0, 1⟩, n] ⟨0, 3⟩) := by
    with_unfolding_all rfl
  have hanswer : AnswersHover [] d ⟨1, 0⟩ _ := (hover_answers []).2 calls params _ hdecode
  unfold AnswersHover at hanswer
  rw [show d.text = "x\ny" from rfl, hparse] at hanswer
  obtain ⟨index, hindex, -, hfound⟩ := hanswer
  obtain rfl : 2 = index := Except.ok.inj hindex
  obtain ⟨m, hm, hvalue, hrange⟩ := hfound (by decide)
  have hbelow : m ∈ n.tree.preorder :=
    hm.below n (List.mem_cons_of_mem _ (List.mem_cons_of_mem _ List.mem_cons_self)) rfl
  obtain rfl := List.mem_singleton.mp hbelow
  exact ⟨hdecode, hd, hvalue, hrange (by decide)⟩

end LanguageServer.Handler
