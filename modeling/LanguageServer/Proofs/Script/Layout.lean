import LanguageServer.Proofs.Script.Covers
import LanguageServer.Proofs.Script.Extent
import LanguageServer.Proofs.Script.Tree

/-! # Where the nodes of a program stand

The tokens of a program stand one after the other, and every node of it begins and ends with one of
them. A node has more characters than any of its children, which stand one after the other inside
it: `Tidy`. So no two nodes of a statement have one span.

* `Covers.laid`: by induction on the tokens an expression is read from;
* `within_of_mem_preorder`, `preorder_pairwise_ne`: what follows for nodes further below, by
  induction over children;
* `parse_wellPlaced`: whole programs, where the only node as wide as the root is its one
  statement. -/

namespace LanguageServer.Script

attribute [ext] Span

/-! ### One node -/

/-- The node has characters, and its children stand one after the other inside it, none of them as
wide as it is. -/
structure Tidy (n : Expr) : Prop where
  pos : n.span.start < n.span.stop
  inside : ∀ c ∈ n.children, n.span.start ≤ c.span.start ∧ c.span.stop ≤ n.span.stop
  ne : ∀ c ∈ n.children, c.span ≠ n.span
  apart : n.children.Pairwise fun c d => c.span.stop ≤ d.span.start

/-- The span begins with one of the tokens and ends with one. -/
def Between (ts : List Token) (s : Span) : Prop :=
  (∃ a ∈ ts, s.start = a.span.start) ∧ ∃ b ∈ ts, s.stop = b.span.stop

theorem Between.mono {ts us : List Token} {s : Span} (h : Between ts s) (hsub : ts ⊆ us) :
    Between us s := by
  obtain ⟨⟨a, ha, hstart⟩, b, hb, hstop⟩ := h
  exact ⟨⟨a, hsub ha, hstart⟩, b, hsub hb, hstop⟩

/-! ### From tokens to nodes -/

/-- All nodes are tidy and stand between the tokens. -/
def Laid (front : List Token) (e : Expr) : Prop :=
  ∀ n ∈ e.tree.preorder, Tidy n ∧ Between front n.span

theorem Laid.mono {front front' : List Token} {e : Expr} (h : Laid front e)
    (hsub : front ⊆ front') : Laid front' e :=
  fun n hn => ⟨(h n hn).1, (h n hn).2.mono hsub⟩

theorem Laid.tidy {front : List Token} {e : Expr} (h : Laid front e) : Tidy e :=
  (h e e.mem_preorder_self).1

theorem Laid.between {front : List Token} {e : Expr} (h : Laid front e) : Between front e.span :=
  (h e e.mem_preorder_self).2

theorem Laid.le_start {front : List Token} {e : Expr} (h : Laid front e) {k : Nat}
    (hk : ∀ t ∈ front, k ≤ t.span.start) : k ≤ e.span.start := by
  obtain ⟨⟨a, ha, hstart⟩, -⟩ := h.between
  rw [hstart]
  exact hk a ha

theorem Laid.stop_le {front : List Token} {e : Expr} (h : Laid front e) {k : Nat}
    (hk : ∀ t ∈ front, t.span.stop ≤ k) : e.span.stop ≤ k := by
  obtain ⟨-, b, hb, hstop⟩ := h.between
  rw [hstop]
  exact hk b hb

theorem laid_node {front : List Token} {e : Expr} {start stop : Nat}
    (hspan : e.span = ⟨start, stop⟩) (hbetween : Between front ⟨start, stop⟩) (hpos : start < stop)
    (hchildren : ∀ c ∈ e.children, Laid front c)
    (hinside : ∀ c ∈ e.children, start ≤ c.span.start ∧ c.span.stop ≤ stop ∧
      (start < c.span.start ∨ c.span.stop < stop))
    (hapart : e.children.Pairwise fun c d => c.span.stop ≤ d.span.start) : Laid front e := by
  refine Expr.forall_mem_preorder.mpr ⟨⟨⟨?_, ?_, ?_, hapart⟩, ?_⟩, hchildren⟩
  · rw [hspan]
    exact hpos
  · intro c hc
    rw [hspan]
    exact ⟨(hinside c hc).1, (hinside c hc).2.1⟩
  · intro c hc hne
    have hlt := (hinside c hc).2.2
    rw [hne, hspan] at hlt
    simp at hlt
  · rw [hspan]
    exact hbetween

theorem laid_atom {t : Token} {e : Expr} {size : Nat} (ho : Ordered [t] size)
    (hkind : t.kind ≠ .finish) (hspan : e.span = t.span) (hchildren : e.children = []) :
    Laid [t] e := by
  have hpos : t.span.start < t.span.stop := ho.pos t (by simp) hkind
  refine laid_node hspan ⟨⟨t, by simp⟩, t, by simp⟩ hpos ?_ ?_ ?_
  · simp [hchildren]
  · simp [hchildren]
  · simp [hchildren]

theorem laid_sign {op : Operator} {front : List Token} {e : Expr} {span : Span} {size : Nat}
    (ho : Ordered (⟨.operator op, span⟩ :: front) size) (he : Laid front e) :
    Laid (⟨.operator op, span⟩ :: front) (.unary op e (span.join e.span)) := by
  have hop : span.start < span.stop := ho.pos _ List.mem_cons_self nofun
  have hbefore : span.stop ≤ e.span.start := he.le_start (List.pairwise_cons.mp ho.apart).1
  have hpos : e.span.start < e.span.stop := he.tidy.pos
  have hjoin : span.join e.span = ⟨span.start, e.span.stop⟩ := by
    rw [Span.join, Nat.min_eq_left (by omega), Nat.max_eq_right (by omega)]
  obtain ⟨-, b, hb, hstop⟩ := he.between
  refine laid_node hjoin ⟨⟨_, List.mem_cons_self, rfl⟩, b, List.mem_cons_of_mem _ hb, hstop⟩
    (by omega) ?_ ?_ (List.pairwise_singleton _ _)
  · intro c hc
    obtain rfl := List.mem_singleton.mp hc
    exact he.mono (List.subset_cons_self _ _)
  · intro c hc
    obtain rfl := List.mem_singleton.mp hc
    omega

theorem laid_binary {op : Operator} {l r : List Token} {left right : Expr} {span : Span}
    {size : Nat} (ho : Ordered (l ++ ⟨.operator op, span⟩ :: r) size) (hl : Laid l left)
    (hr : Laid r right) :
    Laid (l ++ ⟨.operator op, span⟩ :: r)
      (.binary left op right (left.span.join right.span)) := by
  obtain ⟨-, hopr, hacross⟩ := List.pairwise_append.mp ho.apart
  have hop : span.start < span.stop := ho.pos ⟨.operator op, span⟩ (by simp) nofun
  have hbefore : left.span.stop ≤ span.start :=
    hl.stop_le fun t ht => hacross t ht _ List.mem_cons_self
  have hafter : span.stop ≤ right.span.start := hr.le_start (List.pairwise_cons.mp hopr).1
  have hleft : left.span.start < left.span.stop := hl.tidy.pos
  have hright : right.span.start < right.span.stop := hr.tidy.pos
  have hjoin : left.span.join right.span = ⟨left.span.start, right.span.stop⟩ := by
    rw [Span.join, Nat.min_eq_left (by omega), Nat.max_eq_right (by omega)]
  obtain ⟨⟨a, ha, hstart⟩, -⟩ := hl.between
  obtain ⟨-, b, hb, hstop⟩ := hr.between
  refine laid_node hjoin ⟨⟨a, by simp [ha], hstart⟩, b, by simp [hb], hstop⟩ (by omega) ?_ ?_ ?_
  · intro c hc
    simp only [Expr.children, List.mem_cons, List.not_mem_nil, or_false] at hc
    rcases hc with rfl | rfl
    · exact hl.mono (List.subset_append_left _ _)
    · exact hr.mono (List.subset_append_of_subset_right _ (List.subset_cons_self _ _))
  · intro c hc
    simp only [Expr.children, List.mem_cons, List.not_mem_nil, or_false] at hc
    rcases hc with rfl | rfl <;> omega
  · exact List.pairwise_pair.mpr (by omega)

/-! ### Several expressions one after the other -/

theorem Joined.sublist {fronts : List (List Token)} {ts : List Token} (h : Joined fronts ts) :
    fronts.flatten.Sublist ts := by
  induction h with
  | nil => exact List.Sublist.refl _
  | single front => simp
  | cons front comma _ ih => exact (List.Sublist.refl front).append (ih.cons _)

theorem sublist_of_mem {parts : List (List Token × Expr)} {ts : List Token}
    (hsub : (parts.map Prod.fst).flatten.Sublist ts) {part : List Token × Expr}
    (h : part ∈ parts) : part.1.Sublist ts :=
  (List.sublist_flatten_of_mem (List.mem_map_of_mem h)).trans hsub

theorem apart_of_laid {parts : List (List Token × Expr)} {ts : List Token} {size : Nat}
    (ho : Ordered ts size) (hsub : (parts.map Prod.fst).flatten.Sublist ts)
    (hlaid : ∀ part ∈ parts, Laid part.1 part.2) :
    (parts.map Prod.snd).Pairwise fun c d => c.span.stop ≤ d.span.start := by
  have hfronts := (List.pairwise_flatten.mp (ho.sublist hsub).apart).2
  rw [List.pairwise_map] at hfronts ⊢
  refine hfronts.imp_of_mem fun {p q} hp hq hacross => ?_
  exact (hlaid q hq).le_start fun b hb => (hlaid p hp).stop_le fun a ha => hacross a ha b hb

theorem Names.exists_cons {name : List Token} {callee : Callee} {start : Span}
    (h : Names name callee start) :
    ∃ first more, name = ⟨.identifier first, start⟩ :: more := by
  cases h with
  | bare => exact ⟨_, _, rfl⟩
  | member => exact ⟨_, _, rfl⟩

theorem laid_call {name inside : List Token} {callee : Callee} {start paren close : Span}
    {args : List (List Token × Expr)} {size : Nat} (hname : Names name callee start)
    (hjoined : Joined (args.map Prod.fst) inside)
    (ho : Ordered (name ++ ⟨.openParen, paren⟩ :: (inside ++ [⟨.closeParen, close⟩])) size)
    (hargs : ∀ arg ∈ args, Laid arg.1 arg.2) :
    Laid (name ++ ⟨.openParen, paren⟩ :: (inside ++ [⟨.closeParen, close⟩]))
      (.call callee (args.map Prod.snd) (start.join close)) := by
  obtain ⟨first, more, rfl⟩ := hname.exists_cons
  rw [List.cons_append] at ho ⊢
  have hbehind := (List.pairwise_cons.mp ho.apart).1
  have hlast : List.Sublist (inside ++ [⟨.closeParen, close⟩])
      (more ++ ⟨.openParen, paren⟩ :: (inside ++ [⟨.closeParen, close⟩])) :=
    (List.sublist_cons_self _ _).trans (List.sublist_append_right _ _)
  have hinside := hlast.trans (List.sublist_cons_self ⟨.identifier first, start⟩ _)
  obtain ⟨-, -, hbefore⟩ := List.pairwise_append.mp (ho.sublist hinside).apart
  have hstart : start.start < start.stop := ho.pos _ List.mem_cons_self nofun
  have hclose : close.start < close.stop := ho.pos ⟨.closeParen, close⟩ (by simp) nofun
  have hapart : start.stop ≤ close.start := hbehind ⟨.closeParen, close⟩ (by simp)
  have hjoin : start.join close = ⟨start.start, close.stop⟩ := by
    rw [Span.join, Nat.min_eq_left (by omega), Nat.max_eq_right (by omega)]
  refine laid_node hjoin ⟨⟨_, List.mem_cons_self, rfl⟩, ⟨.closeParen, close⟩, by simp, rfl⟩
    (by omega) ?_ ?_ ?_
  · intro c hc
    obtain ⟨arg, harg, rfl⟩ := List.mem_map.mp hc
    have hsub := sublist_of_mem hjoined.sublist harg
    exact (hargs arg harg).mono ((hsub.trans (List.sublist_append_left _ _)).trans hinside).subset
  · intro c hc
    obtain ⟨arg, harg, rfl⟩ := List.mem_map.mp hc
    have hsub := (sublist_of_mem hjoined.sublist harg).subset
    have hfirst : start.stop ≤ arg.2.span.start := (hargs arg harg).le_start fun t ht =>
      hbehind t (hlast.subset (List.mem_append_left _ (hsub ht)))
    have hlast : arg.2.span.stop ≤ close.start := (hargs arg harg).stop_le fun t ht =>
      hbefore t (hsub ht) ⟨.closeParen, close⟩ (by simp)
    omega
  · exact apart_of_laid (ho.sublist ((List.sublist_append_left _ _).trans hinside)) hjoined.sublist
      hargs

/-- **The nodes of an expression, from the tokens it is read from.** -/
theorem Covers.laid {front : List Token} {e : Expr} (h : Covers front e) {size : Nat}
    (ho : Ordered front size) : Laid front e := by
  induction h with
  | identifier | number | text | boolean | null => exact laid_atom ho nofun rfl rfl
  | @group front e start close _ ih =>
    have hsub : front.Sublist (⟨.openParen, start⟩ :: (front ++ [⟨.closeParen, close⟩])) :=
      (List.sublist_append_left _ _).cons _
    exact (ih (ho.sublist hsub)).mono hsub.subset
  | @call name inside _ _ args paren close hname _ hjoined ih =>
    have hsub : inside.Sublist
        (name ++ ⟨.openParen, paren⟩ :: (inside ++ [⟨.closeParen, close⟩])) :=
      ((List.sublist_append_left _ _).cons _).trans (List.sublist_append_right _ _)
    refine laid_call hname hjoined ho fun arg harg => ih arg harg ?_
    exact ho.sublist ((sublist_of_mem hjoined.sublist harg).trans hsub)
  | sign span _ _ ih => exact laid_sign ho (ih (ho.sublist (List.sublist_cons_self _ _)))
  | binary span _ _ _ ihl ihr =>
    have hl := ihl (ho.sublist (List.sublist_append_left _ _))
    have hr := ihr (ho.sublist ((List.sublist_cons_self _ _).trans (List.sublist_append_right _ _)))
    exact laid_binary ho hl hr

/-! ### Nodes further below -/

/-- The children stand one after the other inside the node, one of them possibly as wide. -/
structure Nested (n : Expr) : Prop where
  inside : ∀ c ∈ n.children, n.span.start ≤ c.span.start ∧ c.span.stop ≤ n.span.stop
  apart : n.children.Pairwise fun c d => c.span.stop ≤ d.span.start

theorem Tidy.nested {n : Expr} (h : Tidy n) : Nested n := ⟨h.inside, h.apart⟩

theorem within_of_nested {e : Expr} (h : ∀ m ∈ e.tree.preorder, Nested m) {n : Expr}
    (hn : n ∈ e.tree.preorder) :
    e.span.start ≤ n.span.start ∧ n.span.stop ≤ e.span.stop := by
  induction e using Expr.induction_children with
  | h e ih =>
    obtain ⟨hnested, hbelow⟩ := Expr.forall_mem_preorder.mp h
    rw [Expr.preorder_tree, List.mem_cons] at hn
    rcases hn with rfl | hn
    · exact ⟨Nat.le_refl _, Nat.le_refl _⟩
    · obtain ⟨c, hc, hn⟩ := List.mem_flatMap.mp hn
      have hcn := ih c hc (hbelow c hc) hn
      have hec := hnested.inside c hc
      omega

theorem within_of_mem_preorder {e : Expr} (h : ∀ m ∈ e.tree.preorder, Tidy m) {n : Expr}
    (hn : n ∈ e.tree.preorder) :
    e.span.start ≤ n.span.start ∧ n.span.stop ≤ e.span.stop :=
  within_of_nested (fun m hm => (h m hm).nested) hn

theorem flatMap_pairwise_ne {es : List Expr} (htidy : ∀ e ∈ es, ∀ m ∈ e.tree.preorder, Tidy m)
    (hne : ∀ e ∈ es, e.tree.preorder.Pairwise fun m n => m.span ≠ n.span)
    (hapart : es.Pairwise fun c d => c.span.stop ≤ d.span.start) :
    (es.flatMap fun e => e.tree.preorder).Pairwise fun m n => m.span ≠ n.span := by
  refine List.pairwise_flatMap.mpr ⟨hne, hapart.imp_of_mem fun {c d} hc hd hcd => ?_⟩
  intro m hm n hn hspan
  have hpos : m.span.start < m.span.stop := (htidy c hc m hm).pos
  have hmc := within_of_mem_preorder (htidy c hc) hm
  have hnd := within_of_mem_preorder (htidy d hd) hn
  rw [← hspan] at hnd
  omega

/-- **No two nodes of a tidy expression have one span.** -/
theorem preorder_pairwise_ne {e : Expr} (h : ∀ m ∈ e.tree.preorder, Tidy m) :
    e.tree.preorder.Pairwise fun m n => m.span ≠ n.span := by
  induction e using Expr.induction_children with
  | h e ih =>
    obtain ⟨htidy, hbelow⟩ := Expr.forall_mem_preorder.mp h
    rw [Expr.preorder_tree, List.pairwise_cons]
    refine ⟨fun n hn hspan => ?_, flatMap_pairwise_ne hbelow (fun c hc => ih c hc (hbelow c hc))
      htidy.apart⟩
    -- a child that holds a node as wide as `e` would be as wide itself
    obtain ⟨c, hc, hn⟩ := List.mem_flatMap.mp hn
    have hcn := within_of_mem_preorder (hbelow c hc) hn
    have hec := htidy.inside c hc
    rw [← hspan] at hcn
    refine htidy.ne c hc ?_
    rw [Span.ext_iff]
    omega

/-! ### Whole programs -/

/-- The spans of a program are well formed: the root has all characters; every other node has
characters, and begins and ends with a token of the text; children are inside their parent, one
after the other; and only the root and its one statement can have the same span. -/
structure WellPlaced (text : String) (e : Expr) : Prop where
  root : e.span = ⟨0, text.length⟩
  between : ∃ ts, tokens text = .ok ts ∧ ∀ n ∈ e.tree.preorder.tail,
    n.span.start < n.span.stop ∧ n.span.stop ≤ e.span.stop ∧ Between ts n.span
  inside : ∀ n ∈ e.tree.preorder, ∀ c ∈ n.children, c.span.within n.span = true
  apart : ∀ n ∈ e.tree.preorder, n.children.Pairwise fun c d => c.span.stop ≤ d.span.start
  distinct : ∀ ⦃i j : Nat⦄ ⦃m n : Expr⦄, i < j → e.tree.preorder[i]? = some m →
    e.tree.preorder[j]? = some n → m.span = n.span → i = 0 ∧ j = 1 ∧ e.children = [n]

section Statements
variable {es : List Expr} {size : Nat} (htidy : ∀ s ∈ es, ∀ m ∈ s.tree.preorder, Tidy m)
  (hapart : es.Pairwise fun c d => c.span.stop ≤ d.span.start)
  (hle : ∀ s ∈ es, s.span.stop ≤ size)

include htidy hapart hle

/-- Beside a statement with all characters there is no other. -/
theorem eq_singleton_of_widest {s : Expr} (hs : s ∈ es) (hspan : s.span = ⟨0, size⟩) :
    es = [s] := by
  have hpos : ∀ d ∈ es, d.span.start < d.span.stop := fun d hd =>
    (htidy d hd d d.mem_preorder_self).pos
  have hstart : s.span.start = 0 := by rw [hspan]
  have hstop : s.span.stop = size := by rw [hspan]
  obtain ⟨before, after, rfl⟩ := List.append_of_mem hs
  obtain ⟨-, hafter, hbefore⟩ := List.pairwise_append.mp hapart
  have hnone : before = [] := List.eq_nil_iff_forall_not_mem.mpr fun d hd => by
    have := hbefore d hd s List.mem_cons_self
    have := hpos d (by simp [hd])
    omega
  have hnone' : after = [] := List.eq_nil_iff_forall_not_mem.mpr fun d hd => by
    have := (List.pairwise_cons.mp hafter).1 d hd
    have := hpos d (by simp [hd])
    have := hle d (by simp [hd])
    omega
  rw [hnone, hnone', List.nil_append]

/-- **Only the root and its one statement can have the same span.** -/
theorem block_distinct {i j : Nat} {m n : Expr} (hij : i < j)
    (hm : (Expr.block es ⟨0, size⟩).tree.preorder[i]? = some m)
    (hn : (Expr.block es ⟨0, size⟩).tree.preorder[j]? = some n) (hspan : m.span = n.span) :
    i = 0 ∧ j = 1 ∧ es = [n] := by
  have hbelow := flatMap_pairwise_ne htidy (fun s hs => preorder_pairwise_ne (htidy s hs)) hapart
  rw [Expr.preorder_tree] at hm hn
  obtain ⟨j, rfl⟩ : ∃ k, j = k + 1 := ⟨j - 1, by omega⟩
  rw [List.getElem?_cons_succ] at hn
  cases i with
  | zero =>
    obtain rfl : .block es ⟨0, size⟩ = m := Option.some.inj hm
    have hstart : 0 = n.span.start := congrArg Span.start hspan
    have hstop : size = n.span.stop := congrArg Span.stop hspan
    -- the statement that holds a node as wide as the root is as wide itself, so there is no other
    obtain ⟨s, hs, hns⟩ := List.mem_flatMap.mp (List.mem_of_getElem? hn)
    have hwithin := within_of_mem_preorder (htidy s hs) hns
    have hsize := hle s hs
    have hwidest : s.span = ⟨0, size⟩ :=
      Span.ext (by simp only; omega) (by simp only; omega)
    obtain rfl := eq_singleton_of_widest htidy hapart hle hs hwidest
    rw [Expr.children, List.flatMap_singleton] at hn
    have hdistinct := preorder_pairwise_ne (htidy s hs)
    rw [Expr.preorder_tree] at hn hdistinct
    cases j with
    | zero => exact ⟨rfl, rfl, congrArg (fun s => [s]) (Option.some.inj hn)⟩
    | succ j =>
      have hlater := List.mem_of_getElem? (List.getElem?_cons_succ.symm.trans hn)
      exact absurd (hwidest.trans hspan) ((List.pairwise_cons.mp hdistinct).1 n hlater)
  | succ i =>
    rw [List.getElem?_cons_succ] at hm
    obtain ⟨hi, rfl⟩ := List.getElem?_eq_some_iff.mp hm
    obtain ⟨hj, rfl⟩ := List.getElem?_eq_some_iff.mp hn
    exact absurd hspan (List.pairwise_iff_getElem.mp hbelow i j hi hj (by omega))

end Statements

/-- The nodes of the statements of a program, without the tokens they are read from. -/
theorem parse_tidy {text : String} {e : Expr} (h : parse text = .ok e) :
    ∃ es, e = .block es ⟨0, text.length⟩ ∧ (∀ s ∈ es, ∀ m ∈ s.tree.preorder, Tidy m) ∧
      (es.Pairwise fun c d => c.span.stop ≤ d.span.start) ∧
      ∀ s ∈ es, s.span.stop ≤ text.length := by
  obtain ⟨ts, es, hts, hst, rfl⟩ := exists_of_parse_eq_ok h
  obtain ⟨lines, hes, hcovers, hsub⟩ := statements_covers hst
  obtain rfl : es = lines.map Prod.snd := hes
  have ho : Ordered ts text.length := tokens_ordered hts
  have hlines : ∀ line ∈ lines, Laid line.1 line.2 := fun line hline =>
    (hcovers line hline).laid (ho.sublist (sublist_of_mem hsub hline))
  have hlaid : ∀ s ∈ lines.map Prod.snd, Laid ts s := by
    intro s hs
    obtain ⟨line, hline, rfl⟩ := List.mem_map.mp hs
    exact (hlines line hline).mono (sublist_of_mem hsub hline).subset
  exact ⟨_, rfl, fun s hs m hm => (hlaid s hs m hm).1, apart_of_laid ho hsub hlines,
    fun s hs => (hlaid s hs).stop_le ho.le⟩

/-- **The spans of every program are well formed.** -/
theorem parse_wellPlaced {text : String} {e : Expr} (h : parse text = .ok e) :
    WellPlaced text e := by
  obtain ⟨ts, es, hts, hst, rfl⟩ := exists_of_parse_eq_ok h
  obtain ⟨lines, hes, hcovers, hsub⟩ := statements_covers hst
  obtain rfl : es = lines.map Prod.snd := hes
  have ho : Ordered ts text.length := tokens_ordered hts
  have hlines : ∀ line ∈ lines, Laid line.1 line.2 := fun line hline =>
    (hcovers line hline).laid (ho.sublist (sublist_of_mem hsub hline))
  have hlaid : ∀ s ∈ lines.map Prod.snd, Laid ts s := by
    intro s hs
    obtain ⟨line, hline, rfl⟩ := List.mem_map.mp hs
    exact (hlines line hline).mono (sublist_of_mem hsub hline).subset
  have htidy : ∀ s ∈ lines.map Prod.snd, ∀ m ∈ s.tree.preorder, Tidy m := fun s hs m hm =>
    (hlaid s hs m hm).1
  have hapart := apart_of_laid ho hsub hlines
  have hle : ∀ s ∈ lines.map Prod.snd, s.span.stop ≤ text.length := fun s hs =>
    (hlaid s hs).stop_le ho.le
  refine ⟨rfl, ⟨ts, hts, fun n hn => ?_⟩, ?_, ?_, ?_⟩
  · rw [Expr.preorder_tree, List.tail_cons] at hn
    obtain ⟨s, hs, hn⟩ := List.mem_flatMap.mp hn
    have hwithin := within_of_mem_preorder (htidy s hs) hn
    exact ⟨(htidy s hs n hn).pos, Nat.le_trans hwithin.2 (hle s hs), (hlaid s hs n hn).2⟩
  · refine Expr.forall_mem_preorder.mpr ⟨fun s hs => ?_, fun s hs n hn c hc => ?_⟩
    · exact Span.within_iff.mpr ⟨Nat.zero_le _, hle s hs⟩
    · exact Span.within_iff.mpr ((htidy s hs n hn).inside c hc)
  · exact Expr.forall_mem_preorder.mpr ⟨hapart, fun s hs n hn => (htidy s hs n hn).apart⟩
  · exact fun i j m n hij hm hn hspan => block_distinct htidy hapart hle hij hm hn hspan

/-- The spans of `-(a) * m.f(1)`, where the parentheses around `a` leave no trace in them. -/
theorem parse_wellPlaced_product :
    let e : Expr := .block [.binary (.unary .minus (.identifier "a" ⟨2, 3⟩) ⟨0, 3⟩) .times
      (.call ⟨"m", "f"⟩ [.number "1" ⟨11, 12⟩] ⟨7, 13⟩) ⟨0, 13⟩] ⟨0, 13⟩
    parse "-(a) * m.f(1)" = .ok e ∧ WellPlaced "-(a) * m.f(1)" e := by
  intro e
  have hparse : parse "-(a) * m.f(1)" = .ok e := by with_unfolding_all rfl
  exact ⟨hparse, parse_wellPlaced hparse⟩

end LanguageServer.Script
