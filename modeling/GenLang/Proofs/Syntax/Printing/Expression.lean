import GenLang.Proofs.Syntax.Printing.Parts
import GenLang.Proofs.Syntax.Phrases

/-!
# Printed expressions

The layout of a tree is read back, and its tokens are a phrase of the grammar for the same tree at
other places. Both are proved along the grammar: a tree that is read from tokens has names that the
lexer takes for names, and no integer that would need a minus.
-/

namespace GenLang

open Text Lexer Grammar Piece

variable {α β : Type}

/-! ## Printed lists -/

theorem spells_commaList {P : Phrase α} {erase : α → β} {f : α → List Piece} (as : List α)
    (h : ∀ a ∈ as, Spells P erase (tokens (f a)) a) :
    Spells (CommaList P) (List.map erase) (tokens (Printer.commaSep (as.map f))) as := by
  match as with
  | [] => exact .commaList_nil
  | [a] => exact (h a List.mem_cons_self).commaList_one
  | a :: a' :: as =>
    have hothers := spells_commaList (a' :: as) fun d hd => h d (List.mem_cons_of_mem a hd)
    simp only [List.map_cons, Printer.commaSep, Printer.sym, Printer.space, tokens_append,
      tokens_token, tokens_blank]
    exact (h a List.mem_cons_self).commaList_cons hothers

theorem spells_many {P : Phrase α} {erase : α → β} {f : α → List Piece} (as : List α)
    (h : ∀ a ∈ as, Spells P erase (tokens (f a)) a) :
    Spells (Many P) (List.map erase) (tokens (as.flatMap f)) as := by
  induction as with
  | nil => exact .many_nil
  | cons a as ih =>
    rw [List.flatMap_cons, tokens_append]
    exact (h a List.mem_cons_self).many_cons (ih fun d hd => h d (List.mem_cons_of_mem a hd))

/-! ## Expressions -/

/-- A tree whose layout is read back as it. -/
structure Printable (e : Expr) : Prop where
  inline : Inline (Printer.bare e)
  spells : Spells (IsExpr (Printer.strength e)) Expr.erase (tokens (Printer.bare e)) e

theorem strength_bounds (e : Expr) : 1 ≤ Printer.strength e ∧ Printer.strength e ≤ 8 := by
  cases e with
  | binary _ op =>
    have := op.precedence_pos
    have := op.precedence_le
    simp only [Printer.strength]
    omega
  | _ => simp [Printer.strength, Printer.prefixStrength, Printer.atomStrength]

namespace Printable

variable {e : Expr} (h : Printable e)

include h

theorem inline_expr (least : Nat) : Inline (Printer.expr least e) := by
  rw [Printer.expr]
  exact h.inline.parenthesize _

/-- With the parentheses it needs, an expression is a phrase of the level it is wanted at. -/
theorem spells_expr (least : Nat) {p : Nat} (hp : p ≤ max least 1) (hleast : least ≤ 8) :
    Spells (IsExpr p) Expr.erase (tokens (Printer.expr least e)) e := by
  have hstrength := strength_bounds e
  rw [Printer.expr, Printer.parenthesize]
  split
  · rw [tokens_append, Printer.sym, tokens_token]
    exact (h.spells.loosen hstrength.1 (by omega)).paren.loosen (by omega) le_rfl
  · next hweak =>
    simp only [decide_eq_true_eq] at hweak
    exact h.spells.loosen (by omega) (by omega)

/-- Where nothing reaches into an expression, it is a phrase of the loosest level. -/
theorem spells_value : Spells (IsExpr 1) Expr.erase (tokens (Printer.expr 0 e)) e :=
  h.spells_expr 0 (by decide) (by decide)

end Printable

theorem args_eq_map (es : List Expr) : Printer.args es = es.map (Printer.expr 0) := by
  induction es with
  | nil => rw [Printer.args, List.map_nil]
  | cons e es ih => rw [Printer.args, ih, List.map_cons]

section

variable {es : List Expr} (h : ∀ e ∈ es, Printable e)

include h

theorem spells_args : Spells (CommaList (IsExpr 1)) (List.map Expr.erase)
    (tokens (Printer.commaSep (Printer.args es))) es := by
  rw [args_eq_map]
  exact spells_commaList es fun e he => (h e he).spells_value

end

theorem commaList_forall {P : Phrase α} {Q : α → Prop}
    (h : ∀ ⦃us a⦄, P us a → Plain us → Q a) {ts : List Lexeme} {as : List α}
    (hlist : CommaList P ts as) (hts : Plain ts) : ∀ a ∈ as, Q a := by
  induction hlist with
  | nil => exact fun _ ha => absurd ha List.not_mem_nil
  | one item => exact fun _ ha => List.mem_singleton.1 ha ▸ h item hts
  | cons first others ih =>
    rw [plain_append, plain_cons] at hts
    intro a ha
    rcases List.mem_cons.1 ha with rfl | ha
    · exact h first hts.1
    · exact ih hts.2.2 a ha

/-! ### What spells one form of expression -/

section

variable {e e' : Expr} {es : List Expr} {s : Span} {i : Ident}

theorem spells_list (hes : ∀ e ∈ es, Printable e) :
    Spells (IsExpr 8) Expr.erase (tokens (Printer.bare (.list s es))) (.list s es) := by
  simp only [Printer.bare, Printer.sym, List.cons_append, tokens_append, tokens_token, tokens_nil]
  exact (spells_args hes).list.atom

theorem spells_new (hes : ∀ e ∈ es, Printable e) :
    Spells (IsExpr 8) Expr.erase (tokens (Printer.bare (.new s i es))) (.new s i es) := by
  simp only [Printer.bare, Printer.kw, Printer.sym, Printer.space, Printer.word, List.cons_append,
    List.nil_append, tokens_append, tokens_token, tokens_blank, tokens_nil]
  exact (spells_args hes).new.atom

theorem spells_member (he : Printable e) :
    Spells (IsExpr 8) Expr.erase (tokens (Printer.bare (.member s e i))) (.member s e i) := by
  simp only [Printer.bare, Printer.sym, Printer.word, tokens_append, tokens_token, tokens_nil]
  exact (he.spells_expr 8 (by decide) (by decide)).member

theorem spells_call (he : Printable e) (hes : ∀ e ∈ es, Printable e) :
    Spells (IsExpr 8) Expr.erase (tokens (Printer.bare (.call s e es))) (.call s e es) := by
  have hcall := (he.spells_expr 8 (p := 8) (by decide) (by decide)).call (s := s) (spells_args hes)
  simpa [Printer.bare, Printer.sym, Printer.atomStrength] using hcall

theorem spells_index (he : Printable e) (he' : Printable e') :
    Spells (IsExpr 8) Expr.erase (tokens (Printer.bare (.index s e e'))) (.index s e e') := by
  have hindex := (he.spells_expr 8 (p := 8) (by decide) (by decide)).index (s := s)
    he'.spells_value
  simpa [Printer.bare, Printer.sym, Printer.atomStrength] using hindex

/-- The right operand has to bind tighter, or the tree would lean the other way. -/
theorem spells_binary {op : BinaryOp} (he : Printable e) (he' : Printable e') :
    Spells (IsExpr op.precedence) Expr.erase (tokens (Printer.bare (.binary s op e e')))
      (.binary s op e e') := by
  have hlow := op.precedence_pos
  have hhigh := op.precedence_le
  have hlhs := he.spells_expr op.precedence (p := op.precedence) (by omega) (by omega)
  have hrhs := he'.spells_expr (op.precedence + 1) (p := op.precedence + 1) (by omega) (by omega)
  have hbinary := hlhs.binary (s := s) hrhs
  simpa [Printer.bare, Printer.sym, Printer.space] using hbinary

end

theorem printable_expr {p : Nat} {ts : List Lexeme} {e : Expr} (h : IsExpr p ts e) :
    Plain ts → Printable e := by
  induction h using IsExpr.induct with
  | @lit t l value =>
    intro hts
    obtain ⟨u, hu, hspelled, hlit⟩ := literal_spelled value (hts t List.mem_cons_self).2
    refine ⟨inline_bare (.lit value) hts, ?_⟩
    rw [Printer.bare, hu]
    exact (Spells.lit hlit).atom
  | name i =>
    intro hts
    refine ⟨inline_bare (.name i) hts, ?_⟩
    rw [Printer.bare]
    exact (Spells.name i.name).atom
  | self s =>
    intro hts
    refine ⟨inline_bare (.self s) hts, ?_⟩
    rw [Printer.bare]
    exact Spells.self.atom
  -- Parentheses are no part of the tree: the printer puts its own where they are needed.
  | paren _ ih =>
    intro hts
    rw [List.cons_append, plain_cons, plain_append] at hts
    exact ih hts.2.1
  | tighter _ _ ih => exact ih
  | list items ih =>
    intro hts
    refine ⟨inline_bare (.list items) hts, spells_list ?_⟩
    rw [List.cons_append, plain_cons, plain_append] at hts
    exact commaList_forall (fun _ _ h => h.2) ih hts.2.1
  | new args ih =>
    intro hts
    refine ⟨inline_bare (.new args) hts, spells_new ?_⟩
    simp only [List.cons_append, plain_cons, plain_append] at hts
    exact commaList_forall (fun _ _ h => h.2) ih hts.2.2.2.1
  | member target ih =>
    intro hts
    exact ⟨inline_bare (.member target) hts, spells_member (ih (plain_append.1 hts).1)⟩
  | call callee args ih ih' =>
    intro hts
    have hinline := inline_bare (.call callee args) hts
    simp only [List.append_assoc, List.cons_append, plain_cons, plain_append] at hts
    have hes := commaList_forall (fun _ _ h => h.2) ih' hts.2.2.1
    exact ⟨hinline, spells_call (ih hts.1) hes⟩
  | index target position ih ih' =>
    intro hts
    have hinline := inline_bare (.index target position) hts
    simp only [List.append_assoc, List.cons_append, plain_cons, plain_append] at hts
    exact ⟨hinline, spells_index (ih hts.1) (ih' hts.2.2.1)⟩
  | not operand ih =>
    intro hts
    refine ⟨inline_bare (.not operand) hts, ?_⟩
    rw [Printer.bare]
    exact ((ih (plain_cons.1 hts).2).spells_expr 7 (by decide) (by decide)).not
  | neg operand ih =>
    intro hts
    refine ⟨inline_bare (.neg operand) hts, ?_⟩
    rw [Printer.bare]
    exact ((ih (plain_cons.1 hts).2).spells_expr 7 (by decide) (by decide)).neg
  | await operand ih =>
    intro hts
    refine ⟨inline_bare (.await operand) hts, ?_⟩
    rw [Printer.bare]
    exact ((ih (plain_cons.1 hts).2).spells_expr 7 (by decide) (by decide)).await
  | binary lhs rhs ih ih' =>
    intro hts
    have hinline := inline_bare (.binary lhs rhs) hts
    rw [plain_append, plain_cons] at hts
    exact ⟨hinline, spells_binary (ih hts.1) (ih' hts.2.2)⟩

end GenLang
