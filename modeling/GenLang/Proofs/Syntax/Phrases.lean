import GenLang.Proofs.Syntax.Grammar
import GenLang.Proofs.Syntax.Erasure

/-!
# Spelled trees

Tokens spell a tree if they are a phrase for it wherever they stand, places in the tree apart. Every
rule of the grammar makes what spells the whole of what spells the parts, and that is all there is
to know of a rule for text that is printed and for text that is moved.
-/

namespace GenLang

open Text Grammar

variable {α β : Type}

/-- The tokens are a phrase for the tree, up to places, wherever they stand. -/
def Spells (P : Phrase α) (erase : α → β) (toks : List Token) (a : α) : Prop :=
  ∀ ts : List Lexeme, ts.map (·.token) = toks → ∃ b, P ts b ∧ erase b = erase a

theorem map_token_eq_cons {ts : List Lexeme} {t : Token} {toks : List Token} :
    ts.map (·.token) = t :: toks ↔ ∃ s us, ts = ⟨t, s⟩ :: us ∧ us.map (·.token) = toks := by
  constructor
  · intro h
    obtain ⟨⟨u, s⟩, us, rfl, rfl, hus⟩ := List.map_eq_cons_iff.1 h
    exact ⟨s, us, rfl, hus⟩
  · rintro ⟨s, us, rfl, hus⟩
    rw [List.map_cons, hus]

theorem map_token_eq_append {ts : List Lexeme} {toks toks' : List Token} :
    ts.map (·.token) = toks ++ toks' ↔
      ∃ us vs, ts = us ++ vs ∧ us.map (·.token) = toks ∧ vs.map (·.token) = toks' :=
  List.map_eq_append_iff

theorem map_token_eq_nil {ts : List Lexeme} : ts.map (·.token) = [] ↔ ts = [] :=
  List.map_eq_nil_iff

/-! ## Modifiers -/

/-- The modifiers that are read are the ones that the tokens name. -/
theorem hasModifier_eq_any {ms : List Lexeme} {mods : List Token} (h : ms.map (·.token) = mods)
    (k : Keyword) : Parse.hasModifier ms k = mods.any (· == .keyword k) := by
  rw [← h, List.any_map]
  rfl

theorem forall_token {ms : List Lexeme} {mods : List Token} (h : ms.map (·.token) = mods)
    {p : Token → Bool} (hmods : ∀ t ∈ mods, p t) : ∀ m ∈ ms, p m.token := by
  intro m hm
  exact hmods _ (h ▸ List.mem_map_of_mem hm)

theorem map_getD_nil (f : α → β) (o : Option (List α)) :
    (o.getD []).map f = (o.map (List.map f)).getD [] := by
  cases o <;> rfl

namespace Spells

/-! ## Pieces of rules -/

section

variable {P : Phrase α} {erase : α → β} {toks toks' : List Token} {a : α} {as : List α}

theorem optional_none : Spells (Optional P) (Option.map erase) [] none := by
  intro ts hts
  obtain rfl := map_token_eq_nil.1 hts
  exact ⟨none, .none, rfl⟩

theorem many_nil : Spells (Many P) (List.map erase) [] [] := by
  intro ts hts
  obtain rfl := map_token_eq_nil.1 hts
  exact ⟨[], .nil, rfl⟩

theorem commaList_nil : Spells (CommaList P) (List.map erase) [] [] := by
  intro ts hts
  obtain rfl := map_token_eq_nil.1 hts
  exact ⟨[], .nil, rfl⟩

variable (h : Spells P erase toks a)

include h

theorem optional_some : Spells (Optional P) (Option.map erase) toks (some a) := by
  intro ts hts
  obtain ⟨b, hb, herase⟩ := h ts hts
  exact ⟨some b, .some hb, congrArg some herase⟩

theorem after (s : Symbol) : Spells (After P s) erase (.symbol s :: toks) a := by
  intro ts hts
  obtain ⟨place, us, rfl, hus⟩ := map_token_eq_cons.1 hts
  obtain ⟨b, hb, herase⟩ := h us hus
  exact ⟨b, .mk hb, herase⟩

theorem many_cons (hothers : Spells (Many P) (List.map erase) toks' as) :
    Spells (Many P) (List.map erase) (toks ++ toks') (a :: as) := by
  intro ts hts
  obtain ⟨us, vs, rfl, hus, hvs⟩ := map_token_eq_append.1 hts
  obtain ⟨b, hb, herase⟩ := h us hus
  obtain ⟨bs, hbs, herases⟩ := hothers vs hvs
  exact ⟨b :: bs, .cons hb hbs, by rw [List.map_cons, herase, herases, List.map_cons]⟩

theorem commaList_one : Spells (CommaList P) (List.map erase) toks [a] := by
  intro ts hts
  obtain ⟨b, hb, herase⟩ := h ts hts
  exact ⟨[b], .one hb, by rw [List.map_singleton, herase, List.map_singleton]⟩

theorem commaList_cons (hothers : Spells (CommaList P) (List.map erase) toks' as) :
    Spells (CommaList P) (List.map erase) (toks ++ .symbol .comma :: toks') (a :: as) := by
  intro ts hts
  simp only [map_token_eq_append, map_token_eq_cons] at hts
  obtain ⟨us, _, rfl, hus, c, vs, rfl, hvs⟩ := hts
  obtain ⟨b, hb, herase⟩ := h us hus
  obtain ⟨bs, hbs, herases⟩ := hothers vs hvs
  exact ⟨b :: bs, .cons hb hbs, by rw [List.map_cons, herase, herases, List.map_cons]⟩

theorem commaList1_one : Spells (CommaList1 P) (List.map erase) toks [a] := by
  intro ts hts
  obtain ⟨b, hb, herase⟩ := h ts hts
  exact ⟨[b], .one hb, by rw [List.map_singleton, herase, List.map_singleton]⟩

theorem commaList1_cons (hothers : Spells (CommaList1 P) (List.map erase) toks' as) :
    Spells (CommaList1 P) (List.map erase) (toks ++ .symbol .comma :: toks') (a :: as) := by
  intro ts hts
  simp only [map_token_eq_append, map_token_eq_cons] at hts
  obtain ⟨us, _, rfl, hus, c, vs, rfl, hvs⟩ := hts
  obtain ⟨b, hb, herase⟩ := h us hus
  obtain ⟨bs, hbs, herases⟩ := hothers vs hvs
  exact ⟨b :: bs, .cons hb hbs, by rw [List.map_cons, herase, herases, List.map_cons]⟩

end

theorem ident (i : Ident) : Spells IsName Ident.erase [.ident i.name] i := by
  intro ts hts
  simp only [map_token_eq_cons, map_token_eq_nil] at hts
  obtain ⟨s, _, rfl, rfl⟩ := hts
  exact ⟨_, .mk ⟨i.name, s⟩, rfl⟩

/-! ## Expressions -/

section

variable {toks toks' : List Token} {e e' : Expr} {es : List Expr} {s : Span} {i : Ident}

theorem lit {t : Token} {l : Literal} (value : LiteralOf t l) :
    Spells (IsExpr 9) Expr.erase [t] (.lit s l) := by
  intro ts hts
  simp only [map_token_eq_cons, map_token_eq_nil] at hts
  obtain ⟨p, _, rfl, rfl⟩ := hts
  exact ⟨_, .lit (t := ⟨t, p⟩) value, rfl⟩

theorem name (text : String) : Spells (IsExpr 9) Expr.erase [.ident text] (.name s text) := by
  intro ts hts
  simp only [map_token_eq_cons, map_token_eq_nil] at hts
  obtain ⟨p, _, rfl, rfl⟩ := hts
  exact ⟨_, .name ⟨text, p⟩, rfl⟩

theorem self : Spells (IsExpr 9) Expr.erase [.keyword .self_] (.self s) := by
  intro ts hts
  simp only [map_token_eq_cons, map_token_eq_nil] at hts
  obtain ⟨p, _, rfl, rfl⟩ := hts
  exact ⟨_, .self p, rfl⟩

theorem loosen {p q : Nat} (h : Spells (IsExpr q) Expr.erase toks e) (hpq : p ≤ q) (hq : q ≤ 9) :
    Spells (IsExpr p) Expr.erase toks e := by
  intro ts hts
  obtain ⟨d, hd, herase⟩ := h ts hts
  exact ⟨d, hd.loosen hpq hq, herase⟩

theorem atom (h : Spells (IsExpr 9) Expr.erase toks e) : Spells (IsExpr 8) Expr.erase toks e :=
  h.loosen (Nat.le_succ 8) (Nat.le_refl 9)

theorem paren (h : Spells (IsExpr 1) Expr.erase toks e) : Spells (IsExpr 9) Expr.erase
    (.symbol .leftParen :: toks ++ [.symbol .rightParen]) e := by
  intro ts hts
  simp only [List.cons_append, map_token_eq_cons, map_token_eq_append, map_token_eq_nil] at hts
  obtain ⟨o, _, rfl, us, _, rfl, hus, c, _, rfl, rfl⟩ := hts
  obtain ⟨d, hd, herase⟩ := h us hus
  exact ⟨d, .paren hd, herase⟩

theorem list (h : Spells (CommaList (IsExpr 1)) (List.map Expr.erase) toks es) :
    Spells (IsExpr 9) Expr.erase (.symbol .leftBracket :: toks ++ [.symbol .rightBracket])
      (.list s es) := by
  intro ts hts
  simp only [List.cons_append, map_token_eq_cons, map_token_eq_append, map_token_eq_nil] at hts
  obtain ⟨o, _, rfl, us, _, rfl, hus, c, _, rfl, rfl⟩ := hts
  obtain ⟨ds, hds, herase⟩ := h us hus
  exact ⟨_, .list hds, by simp only [Expr.erase, Expr.eraseAll_eq_map, herase]⟩

theorem new (h : Spells (CommaList (IsExpr 1)) (List.map Expr.erase) toks es) :
    Spells (IsExpr 9) Expr.erase (.keyword .new_ :: .ident i.name :: .symbol .leftParen :: toks ++
      [.symbol .rightParen]) (.new s i es) := by
  intro ts hts
  simp only [List.cons_append, map_token_eq_cons, map_token_eq_append, map_token_eq_nil] at hts
  obtain ⟨n, _, rfl, p, _, rfl, o, _, rfl, us, _, rfl, hus, c, _, rfl, rfl⟩ := hts
  obtain ⟨ds, hds, herase⟩ := h us hus
  refine ⟨_, .new (i := ⟨i.name, p⟩) hds, ?_⟩
  simp only [Expr.erase, Expr.eraseAll_eq_map, herase]
  rfl

theorem member (h : Spells (IsExpr 8) Expr.erase toks e) : Spells (IsExpr 8) Expr.erase
    (toks ++ [.symbol .dot, .ident i.name]) (.member s e i) := by
  intro ts hts
  simp only [map_token_eq_append, map_token_eq_cons, map_token_eq_nil] at hts
  obtain ⟨us, _, rfl, hus, d, _, rfl, p, _, rfl, rfl⟩ := hts
  obtain ⟨d, hd, herase⟩ := h us hus
  refine ⟨_, .member (i := ⟨i.name, p⟩) hd, ?_⟩
  simp only [Expr.erase, herase]
  rfl

theorem call (h : Spells (IsExpr 8) Expr.erase toks e)
    (hargs : Spells (CommaList (IsExpr 1)) (List.map Expr.erase) toks' es) :
    Spells (IsExpr 8) Expr.erase (toks ++ .symbol .leftParen :: toks' ++ [.symbol .rightParen])
      (.call s e es) := by
  intro ts hts
  simp only [map_token_eq_append, map_token_eq_cons, map_token_eq_nil] at hts
  obtain ⟨_, _, rfl, ⟨us, _, rfl, hus, o, vs, rfl, hvs⟩, c, _, rfl, rfl⟩ := hts
  obtain ⟨d, hd, herase⟩ := h us hus
  obtain ⟨ds, hds, herases⟩ := hargs vs hvs
  exact ⟨_, .call hd hds, by simp only [Expr.erase, Expr.eraseAll_eq_map, herase, herases]⟩

theorem index (h : Spells (IsExpr 8) Expr.erase toks e)
    (hposition : Spells (IsExpr 1) Expr.erase toks' e') :
    Spells (IsExpr 8) Expr.erase (toks ++ .symbol .leftBracket :: toks' ++ [.symbol .rightBracket])
      (.index s e e') := by
  intro ts hts
  simp only [map_token_eq_append, map_token_eq_cons, map_token_eq_nil] at hts
  obtain ⟨_, _, rfl, ⟨us, _, rfl, hus, o, vs, rfl, hvs⟩, c, _, rfl, rfl⟩ := hts
  obtain ⟨d, hd, herase⟩ := h us hus
  obtain ⟨d', hd', herase'⟩ := hposition vs hvs
  exact ⟨_, .index hd hd', by simp only [Expr.erase, herase, herase']⟩

theorem not (h : Spells (IsExpr 7) Expr.erase toks e) :
    Spells (IsExpr 7) Expr.erase (.symbol .bang :: toks) (.unary s .not e) := by
  intro ts hts
  obtain ⟨p, us, rfl, hus⟩ := map_token_eq_cons.1 hts
  obtain ⟨d, hd, herase⟩ := h us hus
  exact ⟨_, .not hd, by simp only [Expr.erase, herase]⟩

theorem neg (h : Spells (IsExpr 7) Expr.erase toks e) :
    Spells (IsExpr 7) Expr.erase (.symbol .minus :: toks) (.unary s .neg e) := by
  intro ts hts
  obtain ⟨p, us, rfl, hus⟩ := map_token_eq_cons.1 hts
  obtain ⟨d, hd, herase⟩ := h us hus
  exact ⟨_, .neg hd, by simp only [Expr.erase, herase]⟩

theorem await (h : Spells (IsExpr 7) Expr.erase toks e) :
    Spells (IsExpr 7) Expr.erase (.keyword .await :: toks) (.await s e) := by
  intro ts hts
  obtain ⟨p, us, rfl, hus⟩ := map_token_eq_cons.1 hts
  obtain ⟨d, hd, herase⟩ := h us hus
  exact ⟨_, .await hd, by simp only [Expr.erase, herase]⟩

theorem binary {op : BinaryOp} (h : Spells (IsExpr op.precedence) Expr.erase toks e)
    (h' : Spells (IsExpr (op.precedence + 1)) Expr.erase toks' e') :
    Spells (IsExpr op.precedence) Expr.erase (toks ++ .symbol op.symbol :: toks')
      (.binary s op e e') := by
  intro ts hts
  simp only [map_token_eq_append, map_token_eq_cons] at hts
  obtain ⟨us, _, rfl, hus, p, vs, rfl, hvs⟩ := hts
  obtain ⟨d, hd, herase⟩ := h us hus
  obtain ⟨d', hd', herase'⟩ := h' vs hvs
  exact ⟨_, .binary hd hd', by simp only [Expr.erase, herase, herase']⟩

end

/-! ## Statements -/

theorem binding (i : Ident) : Spells IsBinding Ident.erase
    [.symbol .leftParen, .ident i.name, .symbol .rightParen] i := by
  intro ts hts
  simp only [map_token_eq_cons, map_token_eq_nil] at hts
  obtain ⟨o, _, rfl, s, _, rfl, c, _, rfl, rfl⟩ := hts
  exact ⟨_, .mk ⟨i.name, s⟩, rfl⟩

section

variable {toks toks' toks'' : List Token} {e e' : Expr} {b b' : Block} {c : Conditional} {s : Span}
  {i : Ident}

theorem declare {o : Option Expr}
    (h : Spells (Optional (After (IsExpr 1) .assign)) (Option.map Expr.erase) toks o) :
    Spells IsStmt Stmt.erase (.keyword .let_ :: .ident i.name :: toks ++ [.symbol .semicolon])
      (.declare s i o) := by
  intro ts hts
  simp only [List.cons_append, map_token_eq_cons, map_token_eq_append, map_token_eq_nil] at hts
  obtain ⟨w, _, rfl, n, _, rfl, us, _, rfl, hus, c, _, rfl, rfl⟩ := hts
  obtain ⟨d, hd, herase⟩ := h us hus
  refine ⟨_, .declare (i := ⟨i.name, n⟩) hd, ?_⟩
  simp only [Stmt.erase, herase]
  rfl

theorem assign (h : Spells (IsExpr 1) Expr.erase toks e)
    (h' : Spells (IsExpr 1) Expr.erase toks' e') :
    Spells IsStmt Stmt.erase (toks ++ .symbol .assign :: toks' ++ [.symbol .semicolon])
      (.assign s e e') := by
  intro ts hts
  simp only [map_token_eq_append, map_token_eq_cons, map_token_eq_nil] at hts
  obtain ⟨_, _, rfl, ⟨us, _, rfl, hus, a, vs, rfl, hvs⟩, c, _, rfl, rfl⟩ := hts
  obtain ⟨d, hd, herase⟩ := h us hus
  obtain ⟨d', hd', herase'⟩ := h' vs hvs
  exact ⟨_, .assign hd hd', by simp only [Stmt.erase, herase, herase']⟩

theorem expr (h : Spells (IsExpr 1) Expr.erase toks e) :
    Spells IsStmt Stmt.erase (toks ++ [.symbol .semicolon]) (.expr s e) := by
  intro ts hts
  simp only [map_token_eq_append, map_token_eq_cons, map_token_eq_nil] at hts
  obtain ⟨us, _, rfl, hus, c, _, rfl, rfl⟩ := hts
  obtain ⟨d, hd, herase⟩ := h us hus
  exact ⟨_, .expr hd, by simp only [Stmt.erase, herase]⟩

theorem cond (h : Spells IsConditional Conditional.erase toks c) :
    Spells IsStmt Stmt.erase toks (.cond c) := by
  intro ts hts
  obtain ⟨d, hd, herase⟩ := h ts hts
  exact ⟨_, .cond hd, by simp only [Stmt.erase, herase]⟩

theorem whileLoop (h : Spells (IsExpr 1) Expr.erase toks e)
    (hb : Spells IsBlock Block.erase toks' b) :
    Spells IsStmt Stmt.erase (.keyword .while_ :: toks ++ toks') (.whileLoop s e b) := by
  intro ts hts
  simp only [List.cons_append, map_token_eq_cons, map_token_eq_append] at hts
  obtain ⟨w, _, rfl, us, vs, rfl, hus, hvs⟩ := hts
  obtain ⟨d, hd, herase⟩ := h us hus
  obtain ⟨x, hx, herase'⟩ := hb vs hvs
  exact ⟨_, .whileLoop hd hx, by simp only [Stmt.erase, herase, herase']⟩

theorem forLoop (h : Spells (IsExpr 1) Expr.erase toks e)
    (hb : Spells IsBlock Block.erase toks' b) :
    Spells IsStmt Stmt.erase
      (.keyword .for_ :: .ident i.name :: .keyword .in_ :: toks ++ toks') (.forLoop s i e b) := by
  intro ts hts
  simp only [List.cons_append, map_token_eq_cons, map_token_eq_append] at hts
  obtain ⟨w, _, rfl, p, _, rfl, n, _, rfl, us, vs, rfl, hus, hvs⟩ := hts
  obtain ⟨d, hd, herase⟩ := h us hus
  obtain ⟨x, hx, herase'⟩ := hb vs hvs
  refine ⟨_, .forLoop (i := ⟨i.name, p⟩) hd hx, ?_⟩
  simp only [Stmt.erase, herase, herase']
  rfl

theorem ret {o : Option Expr} (h : Spells (Optional (IsExpr 1)) (Option.map Expr.erase) toks o) :
    Spells IsStmt Stmt.erase (.keyword .return_ :: toks ++ [.symbol .semicolon]) (.ret s o) := by
  intro ts hts
  simp only [List.cons_append, map_token_eq_cons, map_token_eq_append, map_token_eq_nil] at hts
  obtain ⟨w, _, rfl, us, _, rfl, hus, c, _, rfl, rfl⟩ := hts
  obtain ⟨d, hd, herase⟩ := h us hus
  exact ⟨_, .ret hd, by simp only [Stmt.erase, herase]⟩

theorem throw (h : Spells (IsExpr 1) Expr.erase toks e) :
    Spells IsStmt Stmt.erase (.keyword .throw_ :: toks ++ [.symbol .semicolon]) (.throw s e) := by
  intro ts hts
  simp only [List.cons_append, map_token_eq_cons, map_token_eq_append, map_token_eq_nil] at hts
  obtain ⟨w, _, rfl, us, _, rfl, hus, c, _, rfl, rfl⟩ := hts
  obtain ⟨d, hd, herase⟩ := h us hus
  exact ⟨_, .throw hd, by simp only [Stmt.erase, herase]⟩

theorem tryCatch {o : Option Ident} (hb : Spells IsBlock Block.erase toks b)
    (hbinding : Spells (Optional IsBinding) (Option.map Ident.erase) toks' o)
    (hb' : Spells IsBlock Block.erase toks'' b') :
    Spells IsStmt Stmt.erase (.keyword .try_ :: toks ++ .keyword .catch_ :: toks' ++ toks'')
      (.tryCatch s b o b') := by
  intro ts hts
  simp only [List.cons_append, map_token_eq_cons, map_token_eq_append] at hts
  obtain ⟨w, _, rfl, _, vs, rfl, ⟨us, _, rfl, hus, k, is, rfl, his⟩, hvs⟩ := hts
  obtain ⟨x, hx, herase⟩ := hb us hus
  obtain ⟨j, hj, herase'⟩ := hbinding is his
  obtain ⟨y, hy, herase''⟩ := hb' vs hvs
  exact ⟨_, .tryCatch hx hj hy, by simp only [Stmt.erase, herase, herase', herase'']⟩

theorem breakLoop :
    Spells IsStmt Stmt.erase [.keyword .break_, .symbol .semicolon] (.breakLoop s) := by
  intro ts hts
  simp only [map_token_eq_cons, map_token_eq_nil] at hts
  obtain ⟨w, _, rfl, c, _, rfl, rfl⟩ := hts
  exact ⟨_, .breakLoop w c, rfl⟩

theorem continueLoop :
    Spells IsStmt Stmt.erase [.keyword .continue_, .symbol .semicolon] (.continueLoop s) := by
  intro ts hts
  simp only [map_token_eq_cons, map_token_eq_nil] at hts
  obtain ⟨w, _, rfl, c, _, rfl, rfl⟩ := hts
  exact ⟨_, .continueLoop w c, rfl⟩

theorem nested (hb : Spells IsBlock Block.erase toks b) :
    Spells IsStmt Stmt.erase toks (.nested b) := by
  intro ts hts
  obtain ⟨x, hx, herase⟩ := hb ts hts
  exact ⟨_, .nested hx, by simp only [Stmt.erase, herase]⟩

theorem block {ss : List Stmt} (h : Spells (Many IsStmt) (List.map Stmt.erase) toks ss) :
    Spells IsBlock Block.erase (.symbol .leftBrace :: toks ++ [.symbol .rightBrace])
      (.mk s ss) := by
  intro ts hts
  simp only [List.cons_append, map_token_eq_cons, map_token_eq_append, map_token_eq_nil] at hts
  obtain ⟨o, _, rfl, us, _, rfl, hus, c, _, rfl, rfl⟩ := hts
  obtain ⟨ds, hds, herase⟩ := h us hus
  exact ⟨_, .mk hds, by simp only [Block.erase, Stmt.eraseAll_eq_map, herase]⟩

section

variable (h : Spells (IsExpr 1) Expr.erase toks e) (hb : Spells IsBlock Block.erase toks' b)

include h hb

theorem alone : Spells IsConditional Conditional.erase (.keyword .if_ :: toks ++ toks')
    (.mk s e b .none) := by
  intro ts hts
  simp only [List.cons_append, map_token_eq_cons, map_token_eq_append] at hts
  obtain ⟨w, _, rfl, us, vs, rfl, hus, hvs⟩ := hts
  obtain ⟨d, hd, herase⟩ := h us hus
  obtain ⟨x, hx, herase'⟩ := hb vs hvs
  exact ⟨_, .alone hd hx, by simp only [Conditional.erase, Alternative.erase, herase, herase']⟩

theorem other (hother : Spells IsBlock Block.erase toks'' b') :
    Spells IsConditional Conditional.erase
      (.keyword .if_ :: toks ++ toks' ++ .keyword .else_ :: toks'') (.mk s e b (.block b')) := by
  intro ts hts
  simp only [List.cons_append, map_token_eq_cons, map_token_eq_append] at hts
  obtain ⟨w, _, rfl, _, _, rfl, ⟨us, vs, rfl, hus, hvs⟩, l, ws, rfl, hws⟩ := hts
  obtain ⟨d, hd, herase⟩ := h us hus
  obtain ⟨x, hx, herase'⟩ := hb vs hvs
  obtain ⟨y, hy, herase''⟩ := hother ws hws
  refine ⟨_, .block hd hx hy, ?_⟩
  simp only [Conditional.erase, Alternative.erase, herase, herase', herase'']

theorem chain (hnext : Spells IsConditional Conditional.erase toks'' c) :
    Spells IsConditional Conditional.erase
      (.keyword .if_ :: toks ++ toks' ++ .keyword .else_ :: toks'') (.mk s e b (.chain c)) := by
  intro ts hts
  simp only [List.cons_append, map_token_eq_cons, map_token_eq_append] at hts
  obtain ⟨w, _, rfl, _, _, rfl, ⟨us, vs, rfl, hus, hvs⟩, l, ws, rfl, hws⟩ := hts
  obtain ⟨d, hd, herase⟩ := h us hus
  obtain ⟨x, hx, herase'⟩ := hb vs hvs
  obtain ⟨y, hy, herase''⟩ := hnext ws hws
  refine ⟨_, .chain hd hx hy, ?_⟩
  simp only [Conditional.erase, Alternative.erase, herase, herase', herase'']

end

end

/-! ## Declarations -/

theorem param {toks toks' : List Token} {i : Ident} {t : Option Ident} {d : Option Literal}
    (htype : Spells (Optional (After IsName .colon)) (Option.map Ident.erase) toks t)
    (hdefault : Spells (Optional (After IsDefault .assign)) (Option.map id) toks' d) :
    Spells IsParam Param.erase (.ident i.name :: toks ++ toks') ⟨i, t, d⟩ := by
  intro ts hts
  simp only [List.cons_append, map_token_eq_cons, map_token_eq_append] at hts
  obtain ⟨n, _, rfl, us, vs, rfl, hus, hvs⟩ := hts
  obtain ⟨t', ht, herase⟩ := htype us hus
  obtain ⟨d', hd, herase'⟩ := hdefault vs hvs
  rw [Option.map_id, id, id] at herase'
  refine ⟨_, .mk (i := ⟨i.name, n⟩) ht hd, ?_⟩
  simp only [Param.erase, herase, herase']
  rfl

section

variable {toks : List Token} {i : Ident} {o : Option Expr} {s : Span}
  (h : Spells (Optional (After (IsExpr 1) .assign)) (Option.map Expr.erase) toks o)

include h

theorem instanceField : Spells IsField FieldDecl.erase
    (.keyword .let_ :: .ident i.name :: toks ++ [.symbol .semicolon]) ⟨i, false, o, s⟩ := by
  intro ts hts
  simp only [List.cons_append, map_token_eq_cons, map_token_eq_append, map_token_eq_nil] at hts
  obtain ⟨w, _, rfl, n, _, rfl, us, _, rfl, hus, c, _, rfl, rfl⟩ := hts
  obtain ⟨d, hd, herase⟩ := h us hus
  refine ⟨_, .instance_ (i := ⟨i.name, n⟩) hd, ?_⟩
  simp only [FieldDecl.erase, herase]
  rfl

theorem staticField : Spells IsField FieldDecl.erase
    (.keyword .static_ :: .keyword .let_ :: .ident i.name :: toks ++ [.symbol .semicolon])
    ⟨i, true, o, s⟩ := by
  intro ts hts
  simp only [List.cons_append, map_token_eq_cons, map_token_eq_append, map_token_eq_nil] at hts
  obtain ⟨p, _, rfl, w, _, rfl, n, _, rfl, us, _, rfl, hus, c, _, rfl, rfl⟩ := hts
  obtain ⟨d, hd, herase⟩ := h us hus
  refine ⟨_, .static_ (i := ⟨i.name, n⟩) hd, ?_⟩
  simp only [FieldDecl.erase, herase]
  rfl

end

theorem body_none : Spells (fun ts b => ∃ stop, IsBody ts b stop) (Option.map Block.erase)
    [.symbol .semicolon] none := by
  intro ts hts
  simp only [map_token_eq_cons, map_token_eq_nil] at hts
  obtain ⟨c, _, rfl, rfl⟩ := hts
  exact ⟨none, ⟨c, .none c⟩, rfl⟩

theorem body_some {toks : List Token} {b : Block} (h : Spells IsBlock Block.erase toks b) :
    Spells (fun ts b => ∃ stop, IsBody ts b stop) (Option.map Block.erase) toks (some b) := by
  intro ts hts
  obtain ⟨x, hx, herase⟩ := h ts hts
  exact ⟨some x, ⟨x.span, .block hx⟩, congrArg some herase⟩

theorem method {mods toks toks' toks'' : List Token} {i : Ident} {isStatic isAsync isNative : Bool}
    {ps : List Param} {r : Option Ident} {b : Option Block} {s : Span}
    (hmods : ∀ t ∈ mods, Parse.isMethodModifier t)
    (hstatic : isStatic = mods.any (· == .keyword .static_))
    (hasync : isAsync = mods.any (· == .keyword .async_))
    (hnative : isNative = mods.any (· == .keyword .native))
    (hparams : Spells (CommaList IsParam) (List.map Param.erase) toks ps)
    (hreturns : Spells (Optional (After IsName .arrow)) (Option.map Ident.erase) toks' r)
    (hbody : Spells (fun ts b => ∃ stop, IsBody ts b stop) (Option.map Block.erase) toks'' b) :
    Spells IsMethod MethodDecl.erase
      (mods ++ .keyword .fn_ :: .ident i.name :: .symbol .leftParen :: toks ++
        .symbol .rightParen :: toks' ++ toks'') ⟨i, isStatic, isAsync, isNative, ps, r, b, s⟩ := by
  intro ts hts
  simp only [List.append_assoc, List.cons_append, map_token_eq_append, map_token_eq_cons] at hts
  obtain ⟨ms, _, rfl, hms, w, _, rfl, n, _, rfl, o, _, rfl, us, _, rfl, hus, c, _, rfl, rs, bs,
    rfl, hrs, hbs⟩ := hts
  obtain ⟨ps', hps, herase⟩ := hparams us hus
  obtain ⟨r', hr, herase'⟩ := hreturns rs hrs
  obtain ⟨b', ⟨stop, hb⟩, herase''⟩ := hbody bs hbs
  have hmethod := IsMethod.mk (w := w) (i := ⟨i.name, n⟩) (o := o) (c := c)
    (forall_token hms hmods) hps hr hb
  simp only [List.append_assoc, List.cons_append] at hmethod
  refine ⟨_, hmethod, ?_⟩
  simp only [MethodDecl.erase, herase, herase', herase'', hasModifier_eq_any hms, hstatic, hasync,
    hnative]
  rfl

theorem fieldMember {toks : List Token} {f : FieldDecl}
    (h : Spells IsField FieldDecl.erase toks f) : Spells IsMember Member.erase toks (.field f) := by
  intro ts hts
  obtain ⟨d, hd, herase⟩ := h ts hts
  exact ⟨_, .field hd, congrArg Member.field herase⟩

theorem methodMember {toks : List Token} {m : MethodDecl}
    (h : Spells IsMethod MethodDecl.erase toks m) :
    Spells IsMember Member.erase toks (.method m) := by
  intro ts hts
  obtain ⟨d, hd, herase⟩ := h ts hts
  exact ⟨_, .method hd, congrArg Member.method herase⟩

theorem generics {toks : List Token} {is : List Ident}
    (h : Spells (CommaList1 IsName) (List.map Ident.erase) toks is) :
    Spells IsGenerics (List.map Ident.erase) (.symbol .less :: toks ++ [.symbol .greater]) is := by
  intro ts hts
  simp only [List.cons_append, map_token_eq_cons, map_token_eq_append, map_token_eq_nil] at hts
  obtain ⟨o, _, rfl, us, _, rfl, hus, c, _, rfl, rfl⟩ := hts
  obtain ⟨js, hjs, herase⟩ := h us hus
  exact ⟨js, .mk hjs, herase⟩

theorem typeDecl {mods toks toks' toks'' : List Token} {k : TypeKind} {i : Ident}
    {isAbstract isStatic : Bool} {g b : Option (List Ident)} {gs bs : List Ident}
    {ms : List Member} {s : Span}
    (hmods : ∀ t ∈ mods, Parse.isTypeModifier t)
    (habstract : isAbstract = mods.any (· == .keyword .abstract_))
    (hstatic : isStatic = mods.any (· == .keyword .static_))
    (hg : g.getD [] = gs) (hb : b.getD [] = bs)
    (hgenerics : Spells (Optional IsGenerics) (Option.map (List.map Ident.erase)) toks g)
    (hbases : Spells (Optional (After (CommaList1 IsName) .colon))
      (Option.map (List.map Ident.erase)) toks' b)
    (hmembers : Spells (Many IsMember) (List.map Member.erase) toks'' ms) :
    Spells IsTypeDecl TypeDecl.erase
      (mods ++ .keyword (kindWord k) :: .ident i.name :: toks ++ toks' ++
        .symbol .leftBrace :: toks'' ++ [.symbol .rightBrace])
      ⟨k, i, isAbstract, isStatic, gs, bs, ms, s⟩ := by
  subst hg hb
  intro ts hts
  simp only [List.append_assoc, List.cons_append, map_token_eq_append, map_token_eq_cons,
    map_token_eq_nil] at hts
  obtain ⟨xs, _, rfl, hxs, w, _, rfl, n, _, rfl, gs, _, rfl, hgs, bs, _, rfl, hbs, o, _, rfl, vs, _,
    rfl, hvs, c, _, rfl, rfl⟩ := hts
  obtain ⟨g', hg, herase⟩ := hgenerics gs hgs
  obtain ⟨b', hb, herase'⟩ := hbases bs hbs
  obtain ⟨ms', hms, herase''⟩ := hmembers vs hvs
  have htype := IsTypeDecl.mk (k := k) (w := w) (i := ⟨i.name, n⟩) (o := o) (c := c)
    (forall_token hxs hmods) hg hb hms
  simp only [List.append_assoc, List.cons_append] at htype
  refine ⟨_, htype, ?_⟩
  simp only [TypeDecl.erase, map_getD_nil, herase, herase', herase'', hasModifier_eq_any hxs,
    habstract, hstatic]
  rfl

end Spells

end GenLang
