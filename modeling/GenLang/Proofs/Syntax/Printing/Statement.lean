import GenLang.Proofs.Syntax.Printing.Expression

/-!
# Printed statements

Statements, blocks and conditionals are printed as whole lines, so that one may stand behind
another without a thought for what it ends with. Only the pieces within a line are looked at.
-/

namespace GenLang

open Text Lexer Grammar Piece

variable {α : Type}

/-! ## Lines -/

abbrev newline : Piece := .blank "\n"

attribute [local simp] Printer.stmt Stmt.erase

/-- Whole lines: behind them there may be whatever may stand behind the end of a line. -/
def Lined (ps : List Piece) : Prop :=
  ∀ ⦃rest⦄, Runs newline rest → Runs newline (ps ++ rest)

/-- What a line begins with, up to a blank. -/
def Lead (ps : List Piece) : Prop :=
  ∀ ⦃rest⦄, Runs Printer.space rest → Runs newline (ps ++ rest)

theorem lined_nil : Lined [] :=
  fun _ h => h

theorem Lined.append {ps qs : List Piece} (hps : Lined ps) (hqs : Lined qs) : Lined (ps ++ qs) := by
  intro rest hrest
  rw [List.append_assoc]
  exact hps (hqs hrest)

theorem lined_newline : Lined [newline] :=
  fun _ h => ⟨readable_blank (by decide) (by decide), rfl, h⟩

theorem lined_flatMap {f : α → List Piece} {as : List α} (h : ∀ a ∈ as, Lined (f a)) :
    Lined (as.flatMap f) := by
  induction as with
  | nil => exact lined_nil
  | cons a as ih =>
    rw [List.flatMap_cons]
    exact (h a List.mem_cons_self).append (ih fun b hb => h b (List.mem_cons_of_mem a hb))

theorem lined_line {ps : List Piece} (h : ∀ rest, (∀ q, Runs q rest) → Runs newline (ps ++ rest))
    (depth : Nat) : Lined (Printer.line depth ps) := by
  intro rest hrest
  have hend : ∀ q, Runs q (newline :: rest) :=
    fun q => ⟨readable_blank (by decide) (by decide), meets_blank q _, hrest⟩
  rw [Printer.line, List.append_assoc, List.append_assoc, List.singleton_append]
  split
  · exact h _ hend
  · next hdepth =>
    refine ⟨⟨?_, ?_⟩, rfl, runs_of_blank (h _ hend)⟩
    · rw [String.toList_ofList, ne_eq, List.replicate_eq_nil_iff]
      omega
    · rw [String.toList_ofList]
      intro c hc
      rw [List.eq_of_mem_replicate hc]
      rfl

@[simp] theorem tokens_line (depth : Nat) (ps : List Piece) :
    tokens (Printer.line depth ps) = tokens ps := by
  rw [Printer.line, tokens_append, tokens_append, tokens_blank, tokens_nil, List.append_nil]
  split
  · rfl
  · rw [tokens_blank, tokens_nil, List.nil_append]

@[simp] theorem tokens_opened (depth : Nat) (lead : List Piece) :
    tokens (Printer.opened depth lead) = tokens lead ++ [.symbol .leftBrace] := by
  rw [Printer.opened, tokens_line, tokens_append]
  rfl

/-! ## Statements -/

structure PrintableStmt (s : Stmt) : Prop where
  lined : ∀ depth, Lined (Printer.stmt depth s)
  spells : ∀ depth, Spells IsStmt Stmt.erase (tokens (Printer.stmt depth s)) s

def PrintableBlock (b : Block) : Prop :=
  ∀ s ∈ b.stmts, PrintableStmt s

structure PrintableConditional (c : Conditional) : Prop where
  lined : ∀ depth lead, Lead lead → Lined (Printer.conditional depth lead c)
  spells : ∀ depth lead, ∃ toks, tokens (Printer.conditional depth lead c) = tokens lead ++ toks ∧
    Spells IsConditional Conditional.erase toks c

theorem stmts_eq_flatMap (depth : Nat) (ss : List Stmt) :
    Printer.stmts depth ss = ss.flatMap (Printer.stmt depth) := by
  induction ss with
  | nil => rw [Printer.stmts, List.flatMap_nil]
  | cons s ss ih => rw [Printer.stmts, ih, List.flatMap_cons]

/-- The tokens of a block, braces included. -/
def braced (depth : Nat) (b : Block) : List Token :=
  .symbol .leftBrace :: tokens (Printer.stmts (depth + 1) b.stmts) ++ [.symbol .rightBrace]

theorem tokens_blockAfter (depth : Nat) (lead : List Piece) (b : Block) :
    tokens (Printer.blockAfter depth lead b) = tokens lead ++ braced depth b := by
  match b with
  | .mk _ [] =>
    rw [Printer.blockAfter, tokens_line, tokens_append, braced, Block.stmts, Printer.stmts]
    rfl
  | .mk _ (s :: ss) =>
    rw [Printer.blockAfter, braced, Block.stmts, Printer.stmts]
    simp only [tokens_append, tokens_line, Printer.sym, tokens_token, tokens_nil,
      List.append_assoc, List.cons_append, List.nil_append]

theorem body_eq_stmts (depth : Nat) (b : Block) :
    Printer.body depth b = Printer.stmts (depth + 1) b.stmts := by
  cases b
  rw [Printer.body, Block.stmts]

section

variable {b : Block} (h : PrintableBlock b)

include h

theorem spells_braced (depth : Nat) : Spells IsBlock Block.erase (braced depth b) b := by
  obtain ⟨span, ss⟩ := b
  rw [braced, Block.stmts, stmts_eq_flatMap]
  exact (spells_many ss fun s hs => (h s hs).spells (depth + 1)).block

theorem lined_stmts (depth : Nat) : Lined (Printer.stmts depth b.stmts) := by
  rw [stmts_eq_flatMap]
  exact lined_flatMap fun s hs => (h s hs).lined depth

theorem lined_blockAfter {lead : List Piece} (hlead : Lead lead) (depth : Nat) :
    Lined (Printer.blockAfter depth lead b) := by
  have hstmts := lined_stmts h (depth + 1)
  match b with
  | .mk _ [] =>
    rw [Printer.blockAfter]
    refine lined_line (fun rest hrest => ?_) depth
    rw [List.append_assoc]
    exact hlead ⟨.symbol _, rfl, .symbol _, rfl, hrest _⟩
  | .mk _ (s :: ss) =>
    rw [Block.stmts, Printer.stmts] at hstmts
    rw [Printer.blockAfter, List.append_assoc _ (Printer.stmt _ _) _]
    refine ((lined_line (fun rest hrest => ?_) depth).append hstmts).append
      (lined_line (fun rest hrest => ?_) depth)
    · rw [List.append_assoc]
      exact hlead ⟨.symbol _, rfl, hrest _⟩
    · exact ⟨.symbol _, rfl, hrest _⟩

end

/-- A word and a blank at the beginning of a line. -/
theorem lead_keyword (k : Keyword) {ps : List Piece}
    (h : ∀ rest, Runs Printer.space rest → Runs Printer.space (ps ++ rest)) :
    Lead (Printer.kw k :: Printer.space :: ps) :=
  fun _ hrest => ⟨.keyword k, rfl, runs_space _ (h _ hrest)⟩

theorem Printable.lead_expr {e : Expr} (h : Printable e) {ps : List Piece} (hps : Lead ps) :
    Lead (ps ++ Printer.expr 0 e ++ [Printer.space]) := by
  intro rest hrest
  simp only [List.append_assoc, List.cons_append, List.nil_append]
  exact hps (h.inline_expr 0 rfl fun q _ => runs_space q hrest)

/-- The value behind a word or a sign: nothing, or an expression behind blanks. -/
theorem printable_init {s : Symbol} {ts : List Lexeme} {e : Option Expr}
    (h : Optional (After (IsExpr 1) s) ts e) (hts : Plain ts) : ∀ e' ∈ e, Printable e' := by
  cases h with
  | none => rintro _ ⟨⟩
  | some item =>
    cases item with
    | mk item =>
      rintro _ ⟨⟩
      exact printable_expr item (plain_cons.1 hts).2

theorem printable_declare {s : Span} {i : Ident} {e : Option Expr} (hi : IsWord i.name)
    (he : ∀ e' ∈ e, Printable e') : PrintableStmt (.declare s i e) := by
  cases e with
  | none =>
    constructor
    · intro depth
      rw [Printer.stmt]
      refine lined_line (fun rest hrest => ?_) depth
      refine ⟨.keyword _, rfl, runs_space _ (runs_name hi rfl ?_)⟩
      exact runs_sym rfl rfl (hrest _)
    · intro depth
      rw [Printer.stmt, tokens_line]
      exact Spells.optional_none.declare
  | some e =>
    have he := he e rfl
    constructor
    · intro depth
      rw [Printer.stmt]
      refine lined_line (fun rest hrest => ?_) depth
      simp only [List.cons_append, List.append_assoc, List.nil_append]
      refine ⟨.keyword _, rfl, runs_space _ (runs_name hi rfl (runs_space _ ?_))⟩
      refine ⟨.symbol _, rfl, runs_space _ (he.inline_expr 0 rfl fun q hq => ?_)⟩
      exact runs_sym rfl hq (hrest _)
    · intro depth
      rw [Printer.stmt, tokens_line, tokens_append]
      exact (he.spells_value.after .assign).optional_some.declare

theorem printable_assign {s : Span} {t e : Expr} (ht : Printable t) (he : Printable e) :
    PrintableStmt (.assign s t e) := by
  constructor
  · intro depth
    rw [Printer.stmt]
    refine lined_line (fun rest hrest => ?_) depth
    simp only [List.cons_append, List.append_assoc, List.nil_append]
    refine ht.inline_expr 0 rfl fun q _ => runs_space q ⟨.symbol _, rfl, runs_space _ ?_⟩
    exact he.inline_expr 0 rfl fun q hq => runs_sym rfl hq (hrest _)
  · intro depth
    have hassign := ht.spells_value.assign (s := s) he.spells_value
    simpa [Printer.space, Printer.sym] using hassign

theorem printable_exprStmt {s : Span} {e : Expr} (he : Printable e) :
    PrintableStmt (.expr s e) := by
  constructor
  · intro depth
    rw [Printer.stmt]
    refine lined_line (fun rest hrest => ?_) depth
    rw [List.append_assoc]
    exact he.inline_expr 0 rfl fun q hq => runs_sym rfl hq (hrest _)
  · intro depth
    rw [Printer.stmt, tokens_line, tokens_append]
    exact he.spells_value.expr

theorem printable_while {s : Span} {e : Expr} {b : Block} (he : Printable e)
    (hb : PrintableBlock b) : PrintableStmt (.whileLoop s e b) := by
  constructor
  · intro depth
    rw [Printer.stmt]
    have hlead : Lead [Printer.kw .while_, Printer.space] := lead_keyword _ fun _ h => h
    exact lined_blockAfter hb (he.lead_expr hlead) depth
  · intro depth
    have hwhile := he.spells_value.whileLoop (s := s) (spells_braced hb depth)
    simpa [tokens_blockAfter, Printer.kw, Printer.space] using hwhile

theorem printable_for {s : Span} {i : Ident} {e : Expr} {b : Block} (hi : IsWord i.name)
    (he : Printable e) (hb : PrintableBlock b) : PrintableStmt (.forLoop s i e b) := by
  constructor
  · intro depth
    rw [Printer.stmt]
    refine lined_blockAfter hb (he.lead_expr (lead_keyword _ fun rest h => ?_)) depth
    refine runs_name hi rfl (runs_space _ ?_)
    exact ⟨.keyword _, rfl, runs_space _ h⟩
  · intro depth
    have hfor := he.spells_value.forLoop (s := s) (i := i) (spells_braced hb depth)
    simpa [tokens_blockAfter, Printer.kw, Printer.space, Printer.word] using hfor

/-- A statement that is nothing but a keyword. -/
theorem printable_keyword {st : Stmt} {k : Keyword}
    (hprint : ∀ depth,
      Printer.stmt depth st = Printer.line depth [Printer.kw k, Printer.sym .semicolon])
    (hspells : Spells IsStmt Stmt.erase [.keyword k, .symbol .semicolon] st) :
    PrintableStmt st := by
  constructor
  · intro depth
    rw [hprint]
    refine lined_line (fun rest hrest => ?_) depth
    exact ⟨.keyword _, rfl, runs_sym rfl rfl (hrest _)⟩
  · intro depth
    rw [hprint, tokens_line]
    exact hspells

/-- A statement that is a keyword and a value. -/
theorem printable_keywordValue {st : Stmt} {k : Keyword} {e : Expr} (he : Printable e)
    (hprint : ∀ depth, Printer.stmt depth st = Printer.line depth
      ([Printer.kw k, Printer.space] ++ Printer.expr 0 e ++ [Printer.sym .semicolon]))
    (hspells : Spells IsStmt Stmt.erase
      (.keyword k :: tokens (Printer.expr 0 e) ++ [.symbol .semicolon]) st) :
    PrintableStmt st := by
  constructor
  · intro depth
    rw [hprint]
    refine lined_line (fun rest hrest => ?_) depth
    simp only [List.cons_append, List.append_assoc, List.nil_append]
    refine ⟨.keyword _, rfl, runs_space _ (he.inline_expr 0 rfl fun q hq => ?_)⟩
    exact runs_sym rfl hq (hrest _)
  · intro depth
    rw [hprint, tokens_line, tokens_append]
    exact hspells

theorem printable_ret {s : Span} {e : Option Expr} (he : ∀ e' ∈ e, Printable e') :
    PrintableStmt (.ret s e) := by
  cases e with
  | none => exact printable_keyword (fun _ => rfl) Spells.optional_none.ret
  | some e =>
    have hspells := (he e rfl).spells_value.optional_some.ret (s := s)
    exact printable_keywordValue (he e rfl) (fun _ => rfl) hspells

theorem printable_throw {s : Span} {e : Expr} (he : Printable e) : PrintableStmt (.throw s e) :=
  printable_keywordValue he (fun _ => rfl) he.spells_value.throw

theorem printable_break (s : Span) : PrintableStmt (.breakLoop s) :=
  printable_keyword (fun _ => rfl) .breakLoop

theorem printable_continue (s : Span) : PrintableStmt (.continueLoop s) :=
  printable_keyword (fun _ => rfl) .continueLoop

theorem printable_nested {b : Block} (hb : PrintableBlock b) : PrintableStmt (.nested b) := by
  constructor
  · intro depth
    rw [Printer.stmt]
    exact lined_blockAfter hb (fun _ h => runs_of_blank h) depth
  · intro depth
    rw [Printer.stmt, tokens_blockAfter]
    exact (spells_braced hb depth).nested

theorem lined_opened {lead : List Piece}
    (h : ∀ rest, (∀ q, Runs q rest) → Runs newline (lead ++ rest)) (depth : Nat) :
    Lined (Printer.opened depth lead) := by
  rw [Printer.opened]
  refine lined_line (fun rest hrest => ?_) depth
  rw [List.append_assoc]
  exact h _ fun q => runs_space q ⟨.symbol _, rfl, hrest _⟩

theorem lined_closing (depth : Nat) : Lined (Printer.line depth [Printer.sym .rightBrace]) := by
  refine lined_line (fun rest hrest => ?_) depth
  exact ⟨.symbol _, rfl, hrest _⟩

theorem lined_body {b : Block} (hb : PrintableBlock b) (depth : Nat) :
    Lined (Printer.body depth b) := by
  rw [body_eq_stmts]
  exact lined_stmts hb (depth + 1)

/-- The pieces of the variable of a handler. -/
theorem printable_handler {ts : List Lexeme} {i : Option Ident} (h : Optional IsBinding ts i)
    (hts : Plain ts) : ∀ j ∈ i, IsWord j.name := by
  cases h with
  | none => rintro _ ⟨⟩
  | some item =>
    cases item with
    | mk i =>
      rintro _ ⟨⟩
      exact (plain_cons.1 (plain_cons.1 hts).2).1.1 _ rfl

/-- What stands behind `catch` for the variable of a handler. -/
def bindingPieces : Option Ident → List Piece
  | none => []
  | some i =>
    [Printer.space, Printer.sym .leftParen, Printer.word i.name, Printer.sym .rightParen]

theorem stmt_tryCatch (depth : Nat) (s : Span) (b h : Block) (i : Option Ident) :
    Printer.stmt depth (.tryCatch s b i h) =
      Printer.opened depth [Printer.kw .try_] ++ Printer.body depth b ++
        Printer.opened depth
          ([Printer.sym .rightBrace, Printer.space, Printer.kw .catch_] ++ bindingPieces i) ++
        Printer.body depth h ++ Printer.line depth [Printer.sym .rightBrace] := by
  cases i <;> rw [Printer.stmt, bindingPieces]

theorem spells_binding (i : Option Ident) :
    Spells (Optional IsBinding) (Option.map Ident.erase) (tokens (bindingPieces i)) i := by
  cases i with
  | none => exact .optional_none
  | some i => exact (Spells.binding i).optional_some

theorem printable_try {s : Span} {b h : Block} {i : Option Ident} (hb : PrintableBlock b)
    (hi : ∀ j ∈ i, IsWord j.name) (hh : PrintableBlock h) :
    PrintableStmt (.tryCatch s b i h) := by
  constructor
  · intro depth
    have htry : Lined (Printer.opened depth [Printer.kw .try_]) := by
      refine lined_opened (fun rest hrest => ?_) depth
      exact ⟨.keyword _, rfl, hrest _⟩
    have hcatch : Lined (Printer.opened depth
        ([Printer.sym .rightBrace, Printer.space, Printer.kw .catch_] ++ bindingPieces i)) := by
      refine lined_opened (fun rest hrest => ?_) depth
      refine ⟨.symbol _, rfl, runs_space _ ⟨.keyword _, rfl, ?_⟩⟩
      cases i with
      | none => exact hrest _
      | some j =>
        refine runs_space _ ⟨.symbol _, rfl, runs_name (hi j rfl) rfl ?_⟩
        exact runs_sym rfl rfl (hrest _)
    rw [stmt_tryCatch]
    exact (((htry.append (lined_body hb depth)).append hcatch).append (lined_body hh depth)).append
      (lined_closing depth)
  · intro depth
    -- in the order in which the statement is read, without the line breaks
    have htokens : tokens (Printer.stmt depth (.tryCatch s b i h)) =
        .keyword .try_ :: braced depth b ++ .keyword .catch_ :: tokens (bindingPieces i) ++
          braced depth h := by
      rw [stmt_tryCatch]
      simp only [body_eq_stmts, braced, tokens_append, tokens_opened, tokens_line, Printer.kw,
        Printer.space, Printer.sym, List.append_assoc, List.cons_append, List.nil_append,
        tokens_token, tokens_blank, tokens_nil]
    rw [htokens]
    exact (spells_braced hb depth).tryCatch (spells_binding i) (spells_braced hh depth)

/-! ## Conditionals -/

theorem runs_header {lead : List Piece} {e : Expr} (hlead : Lead lead) (he : Printable e)
    (rest : List Piece) (hrest : ∀ q, Runs q rest) :
    Runs newline (lead ++ [Printer.kw .if_, Printer.space] ++ Printer.expr 0 e ++ rest) := by
  simp only [List.append_assoc, List.cons_append, List.nil_append]
  refine hlead ⟨.keyword _, rfl, runs_space _ ?_⟩
  exact he.inline_expr 0 rfl fun q _ => hrest q

/-- The tokens of a condition and its block. -/
def condition (depth : Nat) (e : Expr) (b : Block) : List Token :=
  .keyword .if_ :: tokens (Printer.expr 0 e) ++ braced depth b

theorem printable_alone {s : Span} {e : Expr} {b : Block} (he : Printable e)
    (hb : PrintableBlock b) : PrintableConditional (.mk s e b .none) := by
  constructor
  · intro depth lead hlead
    -- An empty block closes on the line on which it opens.
    rw [Printer.conditional]
    split
    · refine lined_blockAfter hb (fun rest hrest => ?_) depth
      rw [List.append_assoc]
      exact runs_header hlead he _ fun q => runs_space q hrest
    · exact ((lined_opened (runs_header hlead he) depth).append (lined_body hb depth)).append
        (lined_closing depth)
  · intro depth lead
    refine ⟨condition depth e b, ?_, ?_⟩
    · rw [Printer.conditional]
      split
      · simp only [tokens_blockAfter, condition, Printer.kw, Printer.space, List.append_assoc,
          List.cons_append, List.nil_append, tokens_append, tokens_token, tokens_blank, tokens_nil]
      · simp only [body_eq_stmts, condition, braced, Printer.kw, Printer.space, Printer.sym,
          List.append_assoc, List.cons_append, List.nil_append, tokens_append, tokens_opened,
          tokens_line, tokens_token, tokens_blank, tokens_nil]
    · exact he.spells_value.alone (spells_braced hb depth)

theorem printable_otherwise {s : Span} {e : Expr} {b o : Block} (he : Printable e)
    (hb : PrintableBlock b) (ho : PrintableBlock o) :
    PrintableConditional (.mk s e b (.block o)) := by
  constructor
  · intro depth lead hlead
    rw [Printer.conditional]
    refine ((((lined_opened (runs_header hlead he) depth).append (lined_body hb depth)).append
      (lined_opened (fun rest hrest => ?_) depth)).append (lined_body ho depth)).append
      (lined_closing depth)
    exact ⟨.symbol _, rfl, runs_space _ ⟨.keyword _, rfl, hrest _⟩⟩
  · intro depth lead
    refine ⟨condition depth e b ++ .keyword .else_ :: braced depth o, ?_, ?_⟩
    · rw [Printer.conditional]
      simp only [body_eq_stmts, condition, braced, Printer.kw, Printer.space, Printer.sym,
        List.append_assoc, List.cons_append, List.nil_append, tokens_append, tokens_opened,
        tokens_line, tokens_token, tokens_blank, tokens_nil]
    · exact he.spells_value.other (spells_braced hb depth) (spells_braced ho depth)

theorem printable_chain {s : Span} {e : Expr} {b : Block} {n : Conditional} (he : Printable e)
    (hb : PrintableBlock b) (hn : PrintableConditional n) :
    PrintableConditional (.mk s e b (.chain n)) := by
  constructor
  · intro depth lead hlead
    rw [Printer.conditional]
    refine ((lined_opened (runs_header hlead he) depth).append (lined_body hb depth)).append
      (hn.lined depth _ fun rest hrest => ?_)
    exact ⟨.symbol _, rfl, runs_space _ ⟨.keyword _, rfl, runs_space _ hrest⟩⟩
  · intro depth lead
    -- the next condition begins on the line on which this block closes
    obtain ⟨toks, htoks, hspells⟩ := hn.spells depth
      [Printer.sym .rightBrace, Printer.space, Printer.kw .else_, Printer.space]
    refine ⟨condition depth e b ++ .keyword .else_ :: toks, ?_, ?_⟩
    · rw [Printer.conditional, tokens_append, htoks]
      simp only [body_eq_stmts, condition, braced, Printer.kw, Printer.space, Printer.sym,
        List.append_assoc, List.cons_append, List.nil_append, tokens_append, tokens_opened,
        tokens_token, tokens_blank, tokens_nil]
    · exact he.spells_value.chain (spells_braced hb depth) hspells

theorem printable_cond {c : Conditional} (hc : PrintableConditional c) :
    PrintableStmt (.cond c) := by
  constructor
  · intro depth
    rw [Printer.stmt]
    exact hc.lined depth [] fun _ h => runs_of_blank h
  · intro depth
    obtain ⟨toks, htoks, hspells⟩ := hc.spells depth []
    rw [Printer.stmt, htoks]
    exact hspells.cond

theorem many_forall {P : Phrase α} {Q : α → Prop} (h : ∀ ⦃us a⦄, P us a → Plain us → Q a)
    {ts : List Lexeme} {as : List α} (hmany : Many P ts as) (hts : Plain ts) : ∀ a ∈ as, Q a := by
  induction hmany with
  | nil => exact fun _ ha => absurd ha List.not_mem_nil
  | cons first others ih =>
    rw [plain_append] at hts
    intro a ha
    rcases List.mem_cons.1 ha with rfl | ha
    · exact h first hts.1
    · exact ih hts.2 a ha

theorem printable_stmt {ts : List Lexeme} {s : Stmt} (h : IsStmt ts s) :
    Plain ts → PrintableStmt s := by
  refine IsStmt.induct (S := fun ts s => Plain ts → PrintableStmt s)
    (B := fun ts b => Plain ts → PrintableBlock b)
    (C := fun ts c => Plain ts → PrintableConditional c)
    ?declare ?assign ?expr ?cond ?whileLoop ?forLoop ?ret ?throw ?tryCatch ?breakLoop ?continueLoop
    ?nested ?block ?alone ?other ?chain h
  case declare =>
    intro w i ts e c init hts
    simp only [List.cons_append, plain_cons, plain_append] at hts
    exact printable_declare (hts.2.1.1 _ rfl) (printable_init init hts.2.2.1)
  case assign =>
    intro ts t a us v c target value hts
    simp only [List.append_assoc, List.cons_append, plain_cons, plain_append] at hts
    exact printable_assign (printable_expr target hts.1) (printable_expr value hts.2.2.1)
  case expr =>
    intro ts e c value hts
    exact printable_exprStmt (printable_expr value (plain_append.1 hts).1)
  case cond =>
    intro ts c branch hts
    exact printable_cond (branch hts)
  case whileLoop =>
    intro w ts e us b cond body hts
    simp only [List.cons_append, plain_cons, plain_append] at hts
    exact printable_while (printable_expr cond hts.2.1) (body hts.2.2)
  case forLoop =>
    intro w i n ts e us b iterable body hts
    simp only [List.cons_append, plain_cons, plain_append] at hts
    exact printable_for (hts.2.1.1 _ rfl) (printable_expr iterable hts.2.2.2.1) (body hts.2.2.2.2)
  case ret =>
    intro w ts e c value hts
    simp only [List.cons_append, plain_cons, plain_append] at hts
    refine printable_ret ?_
    cases value with
    | none => rintro _ ⟨⟩
    | some item =>
      rintro _ ⟨⟩
      exact printable_expr item hts.2.1
  case throw =>
    intro w ts e c value hts
    simp only [List.cons_append, plain_cons, plain_append] at hts
    exact printable_throw (printable_expr value hts.2.1)
  case tryCatch =>
    intro w ts b k us i vs h body binding handler hts
    simp only [List.append_assoc, List.cons_append, plain_cons, plain_append] at hts
    exact printable_try (body hts.2.1) (printable_handler binding hts.2.2.2.1) (handler hts.2.2.2.2)
  case breakLoop =>
    exact fun w c _ => printable_break _
  case continueLoop =>
    exact fun w c _ => printable_continue _
  case nested =>
    intro ts b block hts
    exact printable_nested (block hts)
  case block =>
    intro o ts ss c stmts hts
    simp only [List.cons_append, plain_cons, plain_append] at hts
    exact many_forall (fun _ _ h => h) stmts hts.2.1
  case alone =>
    intro w ts e us b cond body hts
    simp only [List.cons_append, plain_cons, plain_append] at hts
    exact printable_alone (printable_expr cond hts.2.1) (body hts.2.2)
  case other =>
    intro w ts e us b l vs o cond body other hts
    simp only [List.append_assoc, List.cons_append, plain_cons, plain_append] at hts
    exact printable_otherwise (printable_expr cond hts.2.1) (body hts.2.2.1) (other hts.2.2.2.2)
  case chain =>
    intro w ts e us b l vs n cond body next hts
    simp only [List.append_assoc, List.cons_append, plain_cons, plain_append] at hts
    exact printable_chain (printable_expr cond hts.2.1) (body hts.2.2.1) (next hts.2.2.2.2)

theorem printable_block {ts : List Lexeme} {b : Block} (h : IsBlock ts b) (hts : Plain ts) :
    PrintableBlock b := by
  cases h with
  | mk stmts =>
    simp only [List.cons_append, plain_cons, plain_append] at hts
    exact many_forall (fun _ _ h => printable_stmt h) stmts hts.2.1

end GenLang
