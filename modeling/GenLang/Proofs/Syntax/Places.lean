import GenLang.Proofs.Syntax.Lexemes
import GenLang.Proofs.Syntax.Soundness
import GenLang.Syntax.Source

/-!
# Places in trees

Every node of a tree spans the tokens from one to another. What is below a node is within its span,
and its parts stand one behind the other. The brackets around an expression are not of the
expression, so that a span does not have to cover all tokens that were read for it.
-/

namespace GenLang

open Text

/-! ## Outlines -/

/-- What a tree tells of places: the span of a node, the name it is if it is one, and its parts in
the order in which they are written. -/
inductive Outline where
  | node (span : Span) (name : Option String) (parts : List Outline)

namespace Outline

def span : Outline → Span
  | node s _ _ => s

def leaf (s : Span) : Outline :=
  node s none []

/-- Outlines stand one behind the other. -/
def Ordered (ps : List Outline) : Prop :=
  ps.Pairwise fun p q => p.span.stop ≤ q.span.start

/-- Each node is where tokens are, and its parts are within it, one behind the other. -/
inductive Nested (source : String) (ts : List Lexeme) : Outline → Prop
  | node {span name parts}
      (starts : ∃ t ∈ ts, t.span.start = span.start)
      (stops : ∃ t ∈ ts, t.span.stop = span.stop)
      (nonempty : span.start < span.stop)
      (selects : ∀ n ∈ name, span.text? source = some n)
      (within : ∀ p ∈ parts, span.start ≤ p.span.start ∧ p.span.stop ≤ span.stop)
      (ordered : Ordered parts)
      (nested : ∀ p ∈ parts, Nested source ts p) : Nested source ts (node span name parts)

end Outline

def Ident.outline (i : Ident) : Outline :=
  .node i.span (some i.name) []

mutual

def Expr.outline : Expr → Outline
  | .lit s _ => .leaf s
  | .name s n => .node s (some n) []
  | .self s => .leaf s
  | .list s es => .node s none (Expr.outlines es)
  | .new s i es => .node s none (i.outline :: Expr.outlines es)
  | .member s e i => .node s none [e.outline, i.outline]
  | .call s e es => .node s none (e.outline :: Expr.outlines es)
  | .index s e i => .node s none [e.outline, i.outline]
  | .unary s _ e => .node s none [e.outline]
  | .binary s _ a b => .node s none [a.outline, b.outline]
  | .await s e => .node s none [e.outline]

def Expr.outlines : List Expr → List Outline
  | [] => []
  | e :: es => e.outline :: Expr.outlines es

end

theorem Expr.outlines_eq_map (es : List Expr) : Expr.outlines es = es.map Expr.outline := by
  induction es with
  | nil => rfl
  | cons e es ih => rw [Expr.outlines, ih, List.map_cons]

mutual

def Stmt.outline : Stmt → Outline
  | .declare s i e => .node s none (i.outline :: e.toList.map Expr.outline)
  | .assign s t e => .node s none [t.outline, e.outline]
  | .expr s e => .node s none [e.outline]
  | .cond c => c.outline
  | .whileLoop s e b => .node s none [e.outline, b.outline]
  | .forLoop s i e b => .node s none [i.outline, e.outline, b.outline]
  | .ret s e => .node s none (e.toList.map Expr.outline)
  | .throw s e => .node s none [e.outline]
  | .tryCatch s b i h => .node s none (b.outline :: i.toList.map Ident.outline ++ [h.outline])
  | .breakLoop s => .leaf s
  | .continueLoop s => .leaf s
  | .nested b => .node b.span none [b.outline]

def Block.outline : Block → Outline
  | .mk s ss => .node s none (Stmt.outlines ss)

def Conditional.outline : Conditional → Outline
  | .mk s e b a => .node s none (e.outline :: b.outline :: a.outlines)

def Alternative.outlines : Alternative → List Outline
  | .none => []
  | .block b => [b.outline]
  | .chain c => [c.outline]

def Stmt.outlines : List Stmt → List Outline
  | [] => []
  | s :: ss => s.outline :: Stmt.outlines ss

end

theorem Stmt.outlines_eq_map (ss : List Stmt) : Stmt.outlines ss = ss.map Stmt.outline := by
  induction ss with
  | nil => rfl
  | cons s ss ih => rw [Stmt.outlines, ih, List.map_cons]

/-- A parameter is no node of its own; its names are parts of the method. -/
def Param.outlines (p : Param) : List Outline :=
  p.name.outline :: p.typeName.toList.map Ident.outline

def FieldDecl.outline (f : FieldDecl) : Outline :=
  .node f.span none (f.name.outline :: f.init.toList.map Expr.outline)

def MethodDecl.outline (m : MethodDecl) : Outline :=
  .node m.span none (m.name.outline :: m.params.flatMap Param.outlines ++
    m.returns.toList.map Ident.outline ++ m.body.toList.map Block.outline)

def Member.outline : Member → Outline
  | .field f => f.outline
  | .method m => m.outline

def TypeDecl.outline (t : TypeDecl) : Outline :=
  .node t.span none (t.name.outline :: t.generics.map Ident.outline ++
    t.bases.map Ident.outline ++ t.members.map Member.outline)

theorem Expr.span_outline (e : Expr) : e.outline.span = e.span := by
  cases e <;> rfl

theorem Block.span_outline (b : Block) : b.outline.span = b.span := by
  cases b
  rfl

theorem Conditional.span_outline (c : Conditional) : c.outline.span = c.span := by
  cases c
  rfl

/-! ## Tokens in order -/

/-- Tokens of a source, one behind the other. -/
structure Lexeme.InOrder (source : String) (ts : List Lexeme) : Prop where
  nonempty : ∀ t ∈ ts, t.span.start < t.span.stop
  selects : ∀ t ∈ ts, t.span.text? source = some t.token.text
  apart : ts.Pairwise fun t u => t.span.stop ≤ u.span.start

theorem Lexeme.InOrder.sublist {source : String} {ts us : List Lexeme} (h : InOrder source us)
    (hts : ts.Sublist us) : InOrder source ts :=
  ⟨fun t ht => h.nonempty t (hts.subset ht), fun t ht => h.selects t (hts.subset ht),
    h.apart.sublist hts⟩

theorem Lexeme.inOrder_ofSource (source : String) : InOrder source (Lexeme.ofSource source) := by
  have htiling := tiling_scan source
  have hscan : InOrder source (Lexeme.scan source) :=
    ⟨fun l hl => htiling.start_lt_stop hl, fun l hl => htiling.text? hl, htiling.ordered⟩
  exact hscan.sublist (List.filter_sublist)

/-! ## Outlines over tokens -/

namespace Outline

variable {source : String} {ts us : List Lexeme} {o : Outline} {ps qs : List Outline}

theorem Nested.starts (h : Nested source ts o) : ∃ t ∈ ts, t.span.start = o.span.start := by
  cases h with
  | node starts => exact starts

theorem Nested.stops (h : Nested source ts o) : ∃ t ∈ ts, t.span.stop = o.span.stop := by
  cases h with
  | node _ stops => exact stops

theorem Nested.nonempty (h : Nested source ts o) : o.span.start < o.span.stop := by
  cases h with
  | node _ _ nonempty => exact nonempty

theorem Nested.mono (h : Nested source ts o) (hts : ts ⊆ us) : Nested source us o := by
  induction h with
  | node starts stops nonempty selects within ordered _ ih =>
    obtain ⟨t, ht, hstart⟩ := starts
    obtain ⟨u, hu, hstop⟩ := stops
    exact .node ⟨t, hts ht, hstart⟩ ⟨u, hts hu, hstop⟩ nonempty selects within ordered ih

/-- Tokens that are in order have the outlines over them, one behind the other. -/
def Over (source : String) (ts : List Lexeme) (ps : List Outline) : Prop :=
  Lexeme.InOrder source ts → (∀ p ∈ ps, Nested source ts p) ∧ Ordered ps

theorem Over.nil : Over source ts [] :=
  fun _ => ⟨fun _ h => absurd h List.not_mem_nil, .nil⟩

theorem Over.append (hps : Over source ts ps) (hqs : Over source us qs) :
    Over source (ts ++ us) (ps ++ qs) := by
  intro horder
  obtain ⟨hnested, hordered⟩ := hps (horder.sublist (List.sublist_append_left ts us))
  obtain ⟨hnested', hordered'⟩ := hqs (horder.sublist (List.sublist_append_right ts us))
  refine ⟨fun p hp => ?_, List.pairwise_append.2 ⟨hordered, hordered', fun p hp q hq => ?_⟩⟩
  · rcases List.mem_append.1 hp with hp | hp
    · exact (hnested p hp).mono (List.subset_append_left ts us)
    · exact (hnested' p hp).mono (List.subset_append_right ts us)
  · -- every token of the first part is in front of every token of the second
    obtain ⟨t, ht, hstop⟩ := (hnested p hp).stops
    obtain ⟨u, hu, hstart⟩ := (hnested' q hq).starts
    rw [← hstop, ← hstart]
    exact (List.pairwise_append.1 horder.apart).2.2 t ht u hu

theorem Over.sublist (h : Over source ts qs) (hps : ps.Sublist qs) : Over source ts ps := by
  intro horder
  obtain ⟨hnested, hordered⟩ := h horder
  exact ⟨fun p hp => hnested p (hps.subset hp), hordered.sublist hps⟩

theorem Over.token {t : Lexeme} {name : Option String} (hname : ∀ n ∈ name, t.token.text = n) :
    Over source [t] [.node t.span name []] := by
  intro horder
  have hnonempty := horder.nonempty t List.mem_cons_self
  have hselects := horder.selects t List.mem_cons_self
  refine ⟨fun p hp => ?_, List.pairwise_singleton _ _⟩
  rw [List.mem_singleton.1 hp]
  have ht : t ∈ [t] := List.mem_cons_self
  refine .node ⟨t, ht, rfl⟩ ⟨t, ht, rfl⟩ hnonempty (fun n hn => ?_) (by simp) .nil (by simp)
  rw [hselects, hname n hn]

theorem Over.leaf (t : Lexeme) : Over source [t] [.leaf t.span] :=
  .token (by simp)

theorem Over.word (i : Ident) : Over source [Grammar.word i] [i.outline] :=
  .token fun _ hn => Option.some.inj hn

/-- Tokens may stand in front of which no outline tells. -/
theorem Over.behind (h : Over source us ps) (ts : List Lexeme) : Over source (ts ++ us) ps :=
  Over.nil.append h

theorem start_le_of_head? {first p : Outline} (hnonempty : ∀ p ∈ ps, p.span.start < p.span.stop)
    (hordered : Ordered ps) (hfirst : first ∈ ps.head?) (hp : p ∈ ps) :
    first.span.start ≤ p.span.start := by
  obtain ⟨qs, rfl⟩ := List.head?_eq_some_iff.1 hfirst
  rcases List.mem_cons.1 hp with rfl | hp
  · exact Nat.le_refl _
  · have := hnonempty first List.mem_cons_self
    have := (List.pairwise_cons.1 hordered).1 p hp
    omega

theorem stop_le_of_getLast? {last p : Outline} (hnonempty : ∀ p ∈ ps, p.span.start < p.span.stop)
    (hordered : Ordered ps) (hlast : last ∈ ps.getLast?) (hp : p ∈ ps) :
    p.span.stop ≤ last.span.stop := by
  obtain ⟨qs, rfl⟩ := List.getLast?_eq_some_iff.1 hlast
  rcases List.mem_append.1 hp with hp | hp
  · have := hnonempty last (List.mem_append_right _ List.mem_cons_self)
    have := (List.pairwise_append.1 hordered).2.2 p hp last List.mem_cons_self
    omega
  · rw [List.mem_singleton.1 hp]

/-- A node from the first of some outlines to the last one. -/
theorem Over.node (h : Over source ts ps) {first last : Outline} (hfirst : first ∈ ps.head?)
    (hlast : last ∈ ps.getLast?) (hqs : qs.Sublist ps) :
    Over source ts [.node (first.span.merge last.span) none qs] := by
  intro horder
  obtain ⟨hnested, hordered⟩ := h horder
  have hnonempty : ∀ p ∈ ps, p.span.start < p.span.stop := fun p hp => (hnested p hp).nonempty
  have hstart : ∀ p ∈ ps, first.span.start ≤ p.span.start :=
    fun p hp => start_le_of_head? hnonempty hordered hfirst hp
  have hstop : ∀ p ∈ ps, p.span.stop ≤ last.span.stop :=
    fun p hp => stop_le_of_getLast? hnonempty hordered hlast hp
  have hmem := List.mem_of_mem_head? hfirst
  have hmem' := List.mem_of_mem_getLast? hlast
  have hspan : first.span.merge last.span = ⟨first.span.start, last.span.stop⟩ := by
    rw [Span.merge, Nat.min_eq_left (hstart last hmem'), Nat.max_eq_right (hstop first hmem)]
  refine ⟨fun p hp => ?_, List.pairwise_singleton _ _⟩
  rw [List.mem_singleton.1 hp, hspan]
  refine .node (hnested first hmem).starts (hnested last hmem').stops ?_ (by simp)
    (fun q hq => ⟨hstart q (hqs.subset hq), hstop q (hqs.subset hq)⟩) (hordered.sublist hqs)
    fun q hq => hnested q (hqs.subset hq)
  exact Nat.lt_of_lt_of_le (hnonempty first hmem) (hstop first hmem)

end Outline

/-! ## Phrases -/

namespace Grammar

open Outline

variable {source : String} {ts us : List Lexeme} {ps qs : List Outline} {α : Type} {P : Phrase α}

section

variable {f : α → List Outline} (hP : ∀ ⦃ts a⦄, P ts a → Over source ts (f a))

include hP

theorem over_optional {o : Option α} (h : Optional P ts o) :
    Over source ts (o.toList.flatMap f) := by
  cases h with
  | none => exact .nil
  | some item =>
    rw [Option.toList_some, List.flatMap_singleton]
    exact hP item

theorem over_many {as : List α} (h : Many P ts as) : Over source ts (as.flatMap f) := by
  induction h with
  | nil => exact .nil
  | cons first _ ih => exact (hP first).append ih

theorem over_commaList {as : List α} (h : CommaList P ts as) : Over source ts (as.flatMap f) := by
  induction h with
  | nil => exact .nil
  | one item =>
    rw [List.flatMap_singleton]
    exact hP item
  | @cons ts c us a as first _ ih =>
    exact (hP first).append (ih.behind [sym .comma c])

theorem over_commaList1 {as : List α} (h : CommaList1 P ts as) : Over source ts (as.flatMap f) := by
  induction h with
  | one item =>
    rw [List.flatMap_singleton]
    exact hP item
  | @cons ts c us a as first _ ih =>
    exact (hP first).append (ih.behind [sym .comma c])

end

theorem over_kw (k : Keyword) (s : Span) (h : Over source ts ps) :
    Over source (kw k s :: ts) (.leaf s :: ps) :=
  (Over.leaf (kw k s)).append h

theorem over_sym (s : Symbol) (place : Span) (h : Over source ts ps) :
    Over source (sym s place :: ts) (.leaf place :: ps) :=
  (Over.leaf (sym s place)).append h

theorem over_word (i : Ident) (h : Over source ts ps) :
    Over source (word i :: ts) (i.outline :: ps) :=
  (Over.word i).append h

/-- A node from the first outline over some tokens to the one over those behind them. -/
theorem over_to {first last : Outline} (h : Over source ts (first :: ps))
    (hlast : Over source us [last]) (hqs : qs.Sublist (first :: ps ++ [last])) :
    Over source (ts ++ us) [.node (first.span.merge last.span) none qs] := by
  refine (h.append hlast).node rfl ?_ hqs
  rw [List.getLast?_append]
  rfl

theorem over_closed {first : Outline} (h : Over source ts (first :: ps)) (s : Symbol) (place : Span)
    (hqs : qs.Sublist (first :: ps)) :
    Over source (ts ++ [sym s place]) [.node (first.span.merge place) none qs] :=
  over_to h (.leaf (sym s place)) (hqs.trans (List.sublist_append_left _ _))

theorem over_expr {p : Nat} {e : Expr} (h : IsExpr p ts e) : Over source ts [e.outline] := by
  induction h using IsExpr.induct with
  | lit value => exact .leaf _
  | name i => exact .word i
  | self s => exact .leaf _
  | @paren o c ts e _ ih =>
    -- the parentheses are read, but not part of the expression
    exact ((over_sym .leftParen o ih).append (.leaf (sym .rightParen c))).sublist (by simp)
  | @list o c ts es items ih =>
    have hes := over_commaList (fun _ _ h => h.choose_spec) ih
    rw [Expr.outline, Expr.outlines_eq_map, List.map_eq_flatMap]
    exact over_closed (over_sym .leftBracket o hes) .rightBracket c (by simp)
  | @new n i o c ts es args ih =>
    have hes := over_commaList (fun _ _ h => h.choose_spec) ih
    rw [Expr.outline, Expr.outlines_eq_map, List.map_eq_flatMap]
    have hall := over_kw .new_ n (over_word i (over_sym .leftParen o hes))
    exact over_closed hall .rightParen c (by simp)
  | @member ts e d i target ih =>
    have hall := ih.append (over_sym .dot d (.word i))
    rw [Expr.outline, ← e.span_outline]
    exact hall.node rfl rfl (by simp)
  | @call ts e o us es c callee args ih ih' =>
    have hes := over_commaList (fun _ _ h => h.choose_spec) ih'
    rw [Expr.outline, Expr.outlines_eq_map, List.map_eq_flatMap, ← e.span_outline]
    exact over_closed (ih.append (over_sym .leftParen o hes)) .rightParen c (by simp)
  | @index ts e o us i c target position ih ih' =>
    rw [Expr.outline, ← e.span_outline]
    exact over_closed (ih.append (over_sym .leftBracket o ih')) .rightBracket c (by simp)
  | @not s ts e operand ih =>
    rw [Expr.outline, ← e.span_outline]
    exact (over_sym .bang s ih).node rfl rfl (by simp)
  | @neg s ts e operand ih =>
    rw [Expr.outline, ← e.span_outline]
    exact (over_sym .minus s ih).node rfl rfl (by simp)
  | @await s ts e operand ih =>
    rw [Expr.outline, ← e.span_outline]
    exact (over_kw .await s ih).node rfl rfl (by simp)
  | @binary op ts us s a b lhs rhs ih ih' =>
    rw [Expr.outline, ← a.span_outline, ← b.span_outline]
    exact (ih.append (over_sym op.symbol s ih')).node rfl rfl (by simp)
  | tighter below inner ih => exact ih

theorem over_expr? {e : Option Expr} (h : Optional (IsExpr 1) ts e) :
    Over source ts (e.toList.map Expr.outline) := by
  rw [List.map_eq_flatMap]
  exact over_optional (fun _ _ h => over_expr h) h

theorem over_init {e : Option Expr} (h : Optional (After (IsExpr 1) .assign) ts e) :
    Over source ts (e.toList.map Expr.outline) := by
  rw [List.map_eq_flatMap]
  refine over_optional (fun us e h => ?_) h
  cases h with
  | @mk a us e he => exact (over_expr he).behind [sym .assign a]

theorem over_binding {i : Option Ident} (h : Optional IsBinding ts i) :
    Over source ts (i.toList.map Ident.outline) := by
  rw [List.map_eq_flatMap]
  refine over_optional (fun us i h => ?_) h
  cases h with
  | @mk o c =>
    have hall : Over source _ _ :=
      over_sym .leftParen o (over_word i (Over.leaf (sym .rightParen c)))
    exact hall.sublist (by simp)

theorem over_braces {o c : Span} {ss : List Stmt}
    (h : Over source ts (ss.flatMap fun s => [s.outline])) :
    Over source (sym .leftBrace o :: ts ++ [sym .rightBrace c])
      [(Block.mk (o.merge c) ss).outline] := by
  rw [Block.outline, Stmt.outlines_eq_map, List.map_eq_flatMap]
  exact over_closed (over_sym .leftBrace o h) .rightBrace c (by simp)

theorem over_stmt {s : Stmt} (h : IsStmt ts s) : Over source ts [s.outline] := by
  refine IsStmt.induct (S := fun ts s => Over source ts [s.outline])
    (B := fun ts b => Over source ts [b.outline]) (C := fun ts c => Over source ts [c.outline])
    ?declare ?assign ?expr ?cond ?whileLoop ?forLoop ?ret ?throw ?tryCatch ?breakLoop ?continueLoop
    ?nested (fun h => over_braces (over_many (fun _ _ h => h) h)) ?alone ?other ?chain h
  case declare =>
    intro w i ts e c he
    rw [Stmt.outline]
    exact over_closed (over_kw .let_ w (over_word i (over_init he))) .semicolon c (by simp)
  case assign =>
    intro ts t a us v c ht hv
    have hall : Over source _ _ := (over_expr ht).append (over_sym .assign a (over_expr hv))
    rw [Stmt.outline, ← t.span_outline]
    exact over_closed hall .semicolon c (by simp)
  case expr =>
    intro ts e c he
    rw [Stmt.outline, ← e.span_outline]
    exact over_closed (over_expr he) .semicolon c (by simp)
  case cond =>
    intro ts c hc
    rw [Stmt.outline]
    exact hc
  case whileLoop =>
    intro w ts e us b he hb
    rw [Stmt.outline, ← b.span_outline]
    exact over_to (over_kw .while_ w (over_expr he)) hb (by simp)
  case forLoop =>
    intro w i n ts e us b he hb
    have hhead : Over source _ _ := over_kw .for_ w (over_word i (over_kw .in_ n (over_expr he)))
    rw [Stmt.outline, ← b.span_outline]
    exact over_to hhead hb (by simp)
  case ret =>
    intro w ts e c he
    rw [Stmt.outline]
    exact over_closed (over_kw .return_ w (over_expr? he)) .semicolon c (by simp)
  case throw =>
    intro w ts e c he
    rw [Stmt.outline]
    exact over_closed (over_kw .throw_ w (over_expr he)) .semicolon c (by simp)
  case tryCatch =>
    intro w ts b k us i vs h hb hi hh
    have hhead : Over source _ _ :=
      (over_kw .try_ w hb).append (over_kw .catch_ k (over_binding hi))
    rw [Stmt.outline, ← h.span_outline]
    exact over_to hhead hh (by simp)
  case breakLoop =>
    intro w c
    rw [Stmt.outline]
    exact over_closed (Over.leaf (kw .break_ w)) .semicolon c (by simp)
  case continueLoop =>
    intro w c
    rw [Stmt.outline]
    exact over_closed (Over.leaf (kw .continue_ w)) .semicolon c (by simp)
  -- The place of a statement that is a block is that of the block, which spans itself.
  case nested =>
    intro ts b hb
    rw [Stmt.outline, ← b.span_outline]
    have hself : b.outline.span.merge b.outline.span = b.outline.span := by simp [Span.merge]
    have hnode : Over source ts [.node (b.outline.span.merge b.outline.span) none [b.outline]] :=
      hb.node rfl rfl (List.Sublist.refl _)
    rw [hself] at hnode
    exact hnode
  case alone =>
    intro w ts e us b he hb
    rw [Conditional.outline, Alternative.outlines, ← b.span_outline]
    exact over_to (over_kw .if_ w (over_expr he)) hb (by simp)
  -- the word between the branches lies within, as it stands before the last one
  case other =>
    intro w ts e us b l vs o he hb ho
    have hhead : Over source _ _ := (over_kw .if_ w (over_expr he)).append hb
    have helse : Over source (kw .else_ l :: vs) _ := ho.behind [kw .else_ l]
    rw [Conditional.outline, Alternative.outlines, ← o.span_outline]
    exact over_to hhead helse (by simp)
  case chain =>
    intro w ts e us b l vs n he hb hn
    have hhead : Over source _ _ := (over_kw .if_ w (over_expr he)).append hb
    have helse : Over source (kw .else_ l :: vs) _ := hn.behind [kw .else_ l]
    rw [Conditional.outline, Alternative.outlines, ← n.span_outline]
    exact over_to hhead helse (by simp)

theorem over_block {b : Block} (h : IsBlock ts b) : Over source ts [b.outline] := by
  cases h with
  | mk stmts => exact over_braces (over_many (fun _ _ h => over_stmt h) stmts)

/-! ## Declarations -/

theorem over_name {i : Ident} (h : IsName ts i) : Over source ts [i.outline] := by
  cases h with
  | mk => exact .word i

theorem over_names {is : List Ident} (h : CommaList1 IsName ts is) :
    Over source ts (is.map Ident.outline) := by
  rw [List.map_eq_flatMap]
  exact over_commaList1 (fun _ _ h => over_name h) h

theorem over_name? {s : Symbol} {i : Option Ident} (h : Optional (After IsName s) ts i) :
    Over source ts (i.toList.map Ident.outline) := by
  rw [List.map_eq_flatMap]
  refine over_optional (fun us i h => ?_) h
  cases h with
  | @mk a us i hi => exact (over_name hi).behind [sym s a]

theorem over_param {p : Param} (h : IsParam ts p) : Over source ts p.outlines := by
  cases h with
  | @mk i ts t us d typeName default =>
    have hnames : Over source _ _ := over_word i (over_name? typeName)
    exact (hnames.append (@Over.nil source us)).sublist (List.sublist_append_left _ _)

theorem over_field {f : FieldDecl} (h : IsField ts f) : Over source ts [f.outline] := by
  cases h with
  | @instance_ w i ts e c init =>
    have hhead : Over source _ _ := over_kw .let_ w (over_word i (over_init init))
    exact over_closed hhead .semicolon c (by simp)
  | @static_ s w i ts e c init =>
    have hhead : Over source _ _ :=
      over_kw .static_ s (over_kw .let_ w (over_word i (over_init init)))
    exact over_closed hhead .semicolon c (by simp)

/-- A declaration begins at its first modifier, or at its word. -/
theorem over_modifiers (mods : List Lexeme) (k : Keyword) (w : Span) (h : Over source ts ps) :
    ∃ first others, first.span = Parse.firstSpan mods w ∧
      Over source (mods ++ kw k w :: ts) (first :: others ++ ps) := by
  cases mods with
  | nil => exact ⟨.leaf w, [], rfl, over_kw k w h⟩
  | cons m mods =>
    -- the other modifiers and the word stand behind the first one
    have hbehind := h.behind (mods ++ [kw k w])
    rw [List.append_assoc, List.singleton_append] at hbehind
    exact ⟨.leaf m.span, [], rfl, (Over.leaf m).append hbehind⟩

theorem over_body {b : Option Block} {stop : Span} (h : IsBody ts b stop) :
    ∃ last, last.span = stop ∧ Over source ts [last] ∧
      (b.toList.map Block.outline).Sublist [last] := by
  cases h with
  | none => exact ⟨.leaf stop, rfl, .leaf (sym .semicolon stop), List.nil_sublist _⟩
  | @block ts b h => exact ⟨b.outline, b.span_outline, over_block h, List.Sublist.refl _⟩

theorem over_method {m : MethodDecl} (h : IsMethod ts m) : Over source ts [m.outline] := by
  cases h with
  | @mk mods w i o ts ps c us r vs b stop modifiers params returns body =>
    have hparams : Over source ts (ps.flatMap Param.outlines) :=
      over_commaList (fun _ _ h => over_param h) params
    have hnames : Over source _ (i.outline :: ps.flatMap Param.outlines) :=
      over_word i (hparams.behind [sym .leftParen o])
    have hreturns : Over source _ (r.toList.map Ident.outline) :=
      (over_name? returns).behind [sym .rightParen c]
    obtain ⟨first, others, hfirst, hhead⟩ := over_modifiers mods .fn_ w hnames
    obtain ⟨last, rfl, hlast, hbody⟩ := over_body body
    rw [MethodDecl.outline, ← hfirst]
    refine over_to (hhead.append hreturns) hlast ?_
    exact ((List.sublist_append_right (first :: others) _).append_right _).append hbody

theorem over_member {m : Member} (h : IsMember ts m) : Over source ts [m.outline] := by
  cases h with
  | field field => exact over_field field
  | method method => exact over_method method

theorem over_generics {g : Option (List Ident)} (h : Optional IsGenerics ts g) :
    Over source ts ((g.getD []).map Ident.outline) := by
  cases h with
  | none => exact .nil
  | some item =>
    cases item with
    | @mk o ts is c names =>
      have hall : Over source _ _ :=
        (over_sym .less o (over_names names)).append (Over.leaf (sym .greater c))
      exact hall.sublist (by simp)

theorem over_bases {b : Option (List Ident)}
    (h : Optional (After (CommaList1 IsName) .colon) ts b) :
    Over source ts ((b.getD []).map Ident.outline) := by
  cases h with
  | none => exact .nil
  | some item =>
    cases item with
    | @mk a us is names => exact (over_names names).behind [sym .colon a]

theorem over_typeDecl {d : TypeDecl} (h : IsTypeDecl ts d) : Over source ts [d.outline] := by
  cases h with
  | @mk mods k w i ts g us b o vs ms c modifiers generics bases members =>
    have hmembers : Over source vs (ms.map Member.outline) := by
      rw [List.map_eq_flatMap]
      exact over_many (fun _ _ h => over_member h) members
    have hbody : Over source _ (ms.map Member.outline) := hmembers.behind [sym .leftBrace o]
    have hnames : Over source _ _ := over_word i (over_generics generics)
    obtain ⟨first, others, hfirst, hhead⟩ := over_modifiers mods (kindWord k) w hnames
    rw [TypeDecl.outline, ← hfirst]
    refine over_closed ((hhead.append (over_bases bases)).append hbody) .rightBrace c ?_
    exact ((List.sublist_append_right (first :: others) _).append_right _).append_right _

end Grammar

theorem Parse.over_typeDecls {source : String} (n : Nat) (ts : List Lexeme) :
    Outline.Over source ts ((typeDecls n ts).1.map TypeDecl.outline) := by
  induction n generalizing ts with
  | zero => exact .nil
  | succ n ih =>
    rcases ts with _ | ⟨t, ts⟩
    · exact .nil
    · rw [typeDecls]
      split
      · next d rest hd =>
        obtain ⟨us, hts, hus⟩ := sound_typeDecl (n + 1) hd
        rw [hts]
        exact (Grammar.over_typeDecl hus).append (ih rest)
      · -- the tokens that are skipped have no declaration
        have hts : t :: ts.takeWhile (!·.token.startsType) ++ ts.dropWhile (!·.token.startsType) =
            t :: ts := congrArg _ List.takeWhile_append_dropWhile
        have hall := (ih (ts.dropWhile (!·.token.startsType))).behind
          (t :: ts.takeWhile (!·.token.startsType))
        rw [hts] at hall
        exact hall

/-- The trees of a source are nested, also where other declarations of it are broken: every node is
where tokens are, with its parts within it, one behind the other, and the text at a name is that
name. The declarations stand one behind the other. -/
theorem Parsed.nested_ofSource (source : String) :
    (∀ d ∈ (ofSource source).types, d.outline.Nested source (Lexeme.ofSource source)) ∧
      (ofSource source).types.Pairwise fun d d' => d.span.stop ≤ d'.span.start := by
  obtain ⟨hnested, hordered⟩ := Parse.over_typeDecls _ _ (Lexeme.inOrder_ofSource source)
  exact ⟨fun d hd => hnested _ (List.mem_map_of_mem hd), List.pairwise_map.1 hordered⟩

end GenLang
