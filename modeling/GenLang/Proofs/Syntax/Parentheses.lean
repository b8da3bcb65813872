import GenLang.Proofs.Syntax.Formatting

/-!
# Parentheses that are needed

Every pair of parentheses that is printed around part of an expression is needed: the text without
that pair is no expression, or another one.

The reason is a count. Along the grammar, no tokens of an expression have fewer opening parentheses
than are printed for it, whichever way it was written. So what is left without one of the printed
pairs has too few. It remains to see that it is still read as the tokens that were left, for a pair
also keeps apart what stands on its two sides.
-/

namespace GenLang

open Text Lexer Grammar Piece

open Printer (Part parts layout)

/-- The layout of `e` puts parentheses around the expression `x`, behind `before` and in front of
`after`: where `x` is part of `e` and binds looser than it should there, or anywhere within a part
of `e`. -/
inductive Parenthesized : Expr → List Piece → Expr → List Piece → Prop
  | part {e ps least x qs} (h : parts e = ps ++ .inner least x :: qs)
      (weak : Printer.strength x < least) : Parenthesized e (layout ps) x (layout qs)
  | within {e ps least y qs before x after} (h : parts e = ps ++ .inner least y :: qs)
      (weak : Printer.strength y < least) (inner : Parenthesized y before x after) :
      Parenthesized e (layout ps ++ Printer.sym .leftParen :: before) x
        (after ++ Printer.sym .rightParen :: layout qs)
  | plain {e ps least y qs before x after} (h : parts e = ps ++ .inner least y :: qs)
      (tight : ¬ Printer.strength y < least) (inner : Parenthesized y before x after) :
      Parenthesized e (layout ps ++ before) x (after ++ layout qs)

theorem Parenthesized.bare_eq {e x : Expr} {before after : List Piece}
    (h : Parenthesized e before x after) :
    Printer.bare e = before ++ Printer.sym .leftParen :: Printer.bare x ++
      Printer.sym .rightParen :: after := by
  induction h with
  | part h weak =>
    rw [Printer.bare_eq_layout, h]
    simp [Part.layout, Printer.expr, Printer.parenthesize, weak]
  | within h weak _ ih =>
    rw [Printer.bare_eq_layout, h]
    simp [Part.layout, Printer.expr, Printer.parenthesize, weak, ih]
  | plain h tight _ ih =>
    rw [Printer.bare_eq_layout, h]
    simp [Part.layout, Printer.expr, Printer.parenthesize, tight, ih]

theorem isExpr_of_parts_eq {p : Nat} {ts : List Lexeme} {e x : Expr} (h : IsExpr p ts e)
    (hts : Plain ts) {ps qs : List Part} {least : Nat}
    (hparts : parts e = ps ++ .inner least x :: qs) : ∃ us, Plain us ∧ IsExpr 1 us x := by
  obtain ⟨us, hus, -, hinner⟩ := isExpr_of_mem_parts h
    (hparts ▸ List.mem_append_right ps List.mem_cons_self)
  exact ⟨us, hts.subset hus, hinner⟩

/-- What is left without a pair of parentheses may stand where the expression may. -/
theorem Parenthesized.inline {p : Nat} {ts : List Lexeme} {e x : Expr} {before after : List Piece}
    (h : Parenthesized e before x after) (he : IsExpr p ts e) (hts : Plain ts) :
    Inline (before ++ Printer.bare x ++ after) := by
  induction h generalizing p ts with
  | part hparts weak =>
    obtain ⟨us, hus, hinner⟩ := isExpr_of_parts_eq he hts hparts
    simpa using inline_in_place he hts hparts (inline_bare hinner hus)
  | within hparts weak _ ih =>
    obtain ⟨us, hus, hinner⟩ := isExpr_of_parts_eq he hts hparts
    have hleft := (ih hinner hus).parenthesize true
    simpa [Printer.parenthesize] using inline_in_place he hts hparts hleft
  | plain hparts tight _ ih =>
    obtain ⟨us, hus, hinner⟩ := isExpr_of_parts_eq he hts hparts
    simpa using inline_in_place he hts hparts (ih hinner hus)

/-! ## Counting parentheses -/

/-- How many opening parentheses there are. -/
def parens (ts : List Token) : Nat :=
  ts.count (.symbol .leftParen)

@[simp] theorem parens_nil : parens [] = 0 := rfl

@[simp] theorem parens_append (ts us : List Token) : parens (ts ++ us) = parens ts + parens us :=
  List.count_append

theorem parens_cons (t : Token) (ts : List Token) :
    parens (t :: ts) = (if t = .symbol .leftParen then 1 else 0) + parens ts := by
  rw [parens, List.count_cons, parens, Nat.add_comm]
  simp

theorem parens_expr (least : Nat) (e : Expr) : parens (tokens (Printer.expr least e)) =
    parens (tokens (Printer.bare e)) + if Printer.strength e < least then 1 else 0 := by
  rw [Printer.expr, Printer.parenthesize]
  split <;> simp_all [Printer.sym, parens_cons, Nat.add_comm]

theorem parens_commaSep (x : List Piece) (xs : List (List Piece)) :
    parens (tokens (Printer.commaSep (x :: xs))) =
      parens (tokens x) + parens (tokens (Printer.commaSep xs)) := by
  cases xs with
  | nil => simp [Printer.commaSep]
  | cons y xs => simp [Printer.commaSep, Printer.sym, Printer.space, parens_cons]

theorem parens_literal (l : Literal) : parens (tokens (Printer.literal l)) = 0 := by
  cases l with
  | bool b => cases b <;> simp [Printer.literal, Printer.kw, parens_cons]
  | int n =>
    rw [Printer.literal]
    split <;> simp [Printer.sym, parens_cons]
  | float x =>
    simp only [Printer.literal]
    split <;> simp [Printer.sym, parens_cons]
  | _ => simp [Printer.literal, Printer.kw, parens_cons]

/-- Without parentheses of its own an expression is printed with as many as where those are not
needed. -/
theorem parens_expr_of_le {least : Nat} {e : Expr} (h : least ≤ Printer.strength e) :
    parens (tokens (Printer.expr least e)) = parens (tokens (Printer.bare e)) := by
  rw [parens_expr, if_neg (by omega), Nat.add_zero]

theorem parens_args_le {Q : Phrase Expr} (hQ : ∀ ⦃us e⦄, Q us e →
      parens (tokens (Printer.expr 0 e)) ≤ parens (us.map (·.token)))
    {ts : List Lexeme} {es : List Expr} (h : CommaList Q ts es) :
    parens (tokens (Printer.commaSep (Printer.args es))) ≤ parens (ts.map (·.token)) := by
  induction h with
  | nil => simp [Printer.args, Printer.commaSep]
  | one item => simpa [Printer.args, Printer.commaSep] using hQ item
  | cons first _ ih =>
    have hfirst := hQ first
    rw [Printer.args, parens_commaSep]
    simp only [List.map_append, List.map_cons, parens_append, parens_cons]
    omega

/-- No tokens of an expression have fewer opening parentheses than are printed for it. -/
theorem parens_expr_le {p : Nat} {ts : List Lexeme} {e : Expr} (h : IsExpr p ts e) :
    ∀ least ≤ p, least ≤ 8 →
      parens (tokens (Printer.expr least e)) ≤ parens (ts.map (·.token)) := by
  induction h using IsExpr.induct with
  | lit =>
    intro least _ hleast
    rw [parens_expr_of_le hleast, Printer.bare, parens_literal]
    exact Nat.zero_le _
  | name | self =>
    intro least _ hleast
    rw [parens_expr_of_le hleast, Printer.bare]
    exact Nat.zero_le _
  | @paren o c ts e _ ih =>
    -- The pair that was read may be one that is printed.
    intro least _ _
    have hinner := ih 1 (by decide) (by decide)
    rw [parens_expr_of_le (strength_bounds e).1] at hinner
    have hpair : parens ((sym .leftParen o :: ts ++ [sym .rightParen c]).map (·.token)) =
        1 + parens (ts.map (·.token)) := by
      simp [parens_cons]
    rw [parens_expr, hpair]
    split <;> omega
  | tighter _ _ ih => exact fun least hp hleast => ih least (Nat.le_succ_of_le hp) hleast
  | list _ ih =>
    intro least _ hleast
    have hitems := parens_args_le (fun _ _ h => h.2 0 (by decide) (by decide)) ih
    rw [parens_expr_of_le hleast, Printer.bare]
    simpa [Printer.sym, parens_cons] using hitems
  | new _ ih =>
    intro least _ hleast
    have hitems := parens_args_le (fun _ _ h => h.2 0 (by decide) (by decide)) ih
    rw [parens_expr_of_le hleast, Printer.bare]
    simpa [Printer.sym, Printer.kw, Printer.space, Printer.word, parens_cons] using hitems
  | member _ ih =>
    intro least _ hleast
    have htarget := ih 8 (by decide) (by decide)
    rw [parens_expr_of_le hleast, Printer.bare]
    simpa [Printer.sym, Printer.word, Printer.atomStrength, parens_cons] using htarget
  | call _ _ ih ih' =>
    intro least _ hleast
    have hcallee := ih 8 (by decide) (by decide)
    have hargs := parens_args_le (fun _ _ h => h.2 0 (by decide) (by decide)) ih'
    rw [parens_expr_of_le hleast, Printer.bare]
    simpa [Printer.sym, Printer.atomStrength, parens_cons] using
      Nat.add_le_add hcallee (Nat.add_le_add_left hargs 1)
  | index _ _ ih ih' =>
    intro least _ hleast
    have htarget := ih 8 (by decide) (by decide)
    have hposition := ih' 0 (by decide) (by decide)
    rw [parens_expr_of_le hleast, Printer.bare]
    simpa [Printer.sym, Printer.atomStrength, parens_cons] using
      Nat.add_le_add htarget hposition
  | not _ ih | neg _ ih =>
    intro least hp _
    have hoperand := ih 7 (by decide) (by decide)
    rw [parens_expr_of_le hp, Printer.bare]
    simpa [Printer.sym, Printer.prefixStrength, parens_cons] using hoperand
  | await _ ih =>
    intro least hp _
    have hoperand := ih 7 (by decide) (by decide)
    rw [parens_expr_of_le hp, Printer.bare]
    simpa [Printer.kw, Printer.space, Printer.prefixStrength, parens_cons] using hoperand
  | @binary op _ _ _ _ _ _ _ ih ih' =>
    intro least hp _
    have hhigh := op.precedence_le
    have hlhs := ih op.precedence le_rfl (by omega)
    have hrhs := ih' (op.precedence + 1) le_rfl (by omega)
    have hop : op.symbol ≠ .leftParen := by cases op <;> decide
    rw [parens_expr_of_le hp, Printer.bare]
    simpa [Printer.sym, Printer.space, parens_cons, hop] using Nat.add_le_add hlhs hrhs

/-! ## Places -/

theorem strength_erase (e : Expr) : Printer.strength e.erase = Printer.strength e := by
  cases e <;> rw [Expr.erase] <;> rfl

theorem expr_erase {e : Expr} (h : Printer.bare e.erase = Printer.bare e) (least : Nat) :
    Printer.expr least e.erase = Printer.expr least e := by
  rw [Printer.expr, strength_erase, h, Printer.expr]

/-- What is printed does not depend on places. -/
theorem bare_erase (e : Expr) : Printer.bare e.erase = Printer.bare e := by
  -- One case for each form of an expression, and two for the lists of them.
  refine @Expr.rec (fun e => Printer.bare e.erase = Printer.bare e)
    (fun es => Printer.args (Expr.eraseAll es) = Printer.args es)
    ?lit ?name ?self ?list ?new ?member ?call ?index ?unary ?binary ?await ?nil ?cons e
  case lit =>
    intro s l
    rw [Expr.erase, Printer.bare, Printer.bare]
  case name =>
    intro s n
    rw [Expr.erase, Printer.bare, Printer.bare]
  case self =>
    intro s
    rw [Expr.erase, Printer.bare, Printer.bare]
  case list =>
    intro s es ih
    rw [Expr.erase, Printer.bare, ih, Printer.bare]
  case new =>
    intro s i es ih
    rw [Expr.erase, Printer.bare, ih, Printer.bare]
    rfl
  case member =>
    intro s e i ih
    rw [Expr.erase, Printer.bare, expr_erase ih, Printer.bare]
    rfl
  case call =>
    intro s e es ih ih'
    rw [Expr.erase, Printer.bare, expr_erase ih, ih', Printer.bare]
  case index =>
    intro s e i ih ih'
    rw [Expr.erase, Printer.bare, expr_erase ih, expr_erase ih', Printer.bare]
  case unary =>
    intro s op e ih
    cases op <;> rw [Expr.erase, Printer.bare, expr_erase ih, Printer.bare]
  case binary =>
    intro s op a b ih ih'
    rw [Expr.erase, Printer.bare, expr_erase ih, expr_erase ih', Printer.bare]
  case await =>
    intro s e ih
    rw [Expr.erase, Printer.bare, expr_erase ih, Printer.bare]
  case nil => rfl
  case cons =>
    intro e es ih ih'
    rw [Expr.eraseAll, Printer.args, expr_erase ih, ih', Printer.args]

/-! ## Literals -/

mutual

/-- The literals in an expression. -/
def Expr.literals : Expr → List Literal
  | .lit _ l => [l]
  | .name .. | .self _ => []
  | .list _ es | .new _ _ es => Expr.literalsAll es
  | .member _ e _ | .unary _ _ e | .await _ e => e.literals
  | .call _ e es => e.literals ++ Expr.literalsAll es
  | .index _ a b | .binary _ _ a b => a.literals ++ b.literals

def Expr.literalsAll : List Expr → List Literal
  | [] => []
  | e :: es => e.literals ++ Expr.literalsAll es

end

/-- The floats among tokens are floats of the expression. -/
def FloatsIn (ts : List Lexeme) (ls : List Literal) : Prop :=
  ∀ t ∈ ts, ∀ y, t.token = .float y → .float (Decimal.read y) ∈ ls

theorem floatsIn_nil (ls : List Literal) : FloatsIn [] ls :=
  fun _ ht => absurd ht List.not_mem_nil

theorem FloatsIn.cons {t : Lexeme} {ts : List Lexeme} {ls : List Literal} (h : FloatsIn ts ls)
    (ht : ∀ y, t.token ≠ .float y) : FloatsIn (t :: ts) ls := by
  intro u hu y hy
  rcases List.mem_cons.1 hu with rfl | hu
  · exact absurd hy (ht y)
  · exact h u hu y hy

theorem FloatsIn.append {ts us : List Lexeme} {ls ms : List Literal} (h : FloatsIn ts ls)
    (h' : FloatsIn us ms) : FloatsIn (ts ++ us) (ls ++ ms) := by
  intro t ht y hy
  rcases List.mem_append.1 ht with ht | ht
  · exact List.mem_append_left ms (h t ht y hy)
  · exact List.mem_append_right ls (h' t ht y hy)

theorem FloatsIn.behind {ts us : List Lexeme} {ls : List Literal} (h : FloatsIn ts ls)
    (h' : FloatsIn us []) : FloatsIn (ts ++ us) ls := by
  simpa using h.append h'

theorem floatsIn_commaList {Q : Phrase Expr} (hQ : ∀ ⦃us e⦄, Q us e → FloatsIn us e.literals)
    {ts : List Lexeme} {es : List Expr} (h : CommaList Q ts es) :
    FloatsIn ts (Expr.literalsAll es) := by
  induction h with
  | nil => exact floatsIn_nil _
  | one item => simpa [Expr.literalsAll] using hQ item
  | cons first _ ih =>
    rw [Expr.literalsAll]
    exact (hQ first).append (ih.cons (by simp))

theorem floatsIn_expr {p : Nat} {ts : List Lexeme} {e : Expr} (h : IsExpr p ts e) :
    FloatsIn ts e.literals := by
  induction h using IsExpr.induct with
  -- a literal is the only phrase that has a number of its own
  | @lit t l value =>
    intro u hu y hy
    obtain rfl := List.mem_singleton.1 hu
    rw [hy] at value
    cases value
    rw [Expr.literals]
    exact List.mem_singleton_self _
  | name | self => exact (floatsIn_nil _).cons (by simp)
  | paren _ ih => exact (ih.cons (by simp)).behind ((floatsIn_nil _).cons (by simp))
  | tighter _ _ ih => exact ih
  | list _ ih =>
    rw [Expr.literals]
    have hitems := floatsIn_commaList (fun _ _ h => h.2) ih
    exact (hitems.cons (by simp)).behind ((floatsIn_nil _).cons (by simp))
  | new _ ih =>
    rw [Expr.literals]
    have hargs := floatsIn_commaList (fun _ _ h => h.2) ih
    refine FloatsIn.behind ?_ ((floatsIn_nil _).cons (by simp))
    exact ((hargs.cons (by simp)).cons (by simp)).cons (by simp)
  | member _ ih =>
    rw [Expr.literals]
    exact ih.behind (((floatsIn_nil _).cons (by simp)).cons (by simp))
  | call _ _ ih ih' =>
    rw [Expr.literals]
    have hargs := floatsIn_commaList (fun _ _ h => h.2) ih'
    exact (ih.append (hargs.cons (by simp))).behind ((floatsIn_nil _).cons (by simp))
  | index _ _ ih ih' =>
    rw [Expr.literals]
    exact (ih.append (ih'.cons (by simp))).behind ((floatsIn_nil _).cons (by simp))
  | not _ ih | neg _ ih | await _ ih =>
    rw [Expr.literals]
    exact ih.cons (by simp)
  | binary _ _ ih ih' =>
    rw [Expr.literals]
    exact ih.append (ih'.cons (by simp))

/-! ## Every pair is needed -/

/-- What is read from a source has no token that the printer could not spell, if it has no float. -/
theorem plain_of_floatless {source : String} {p : Nat} {ts : List Lexeme} {e : Expr}
    (hts : ts ⊆ Lexeme.ofSource source) (h : IsExpr p ts e) (hfloat : ∀ y, .float y ∉ e.literals) :
    Plain ts := by
  intro t ht
  refine ⟨fun name hname => ?_, fun y hy => hfloat _ (floatsIn_expr h t ht y hy)⟩
  exact isWord_of_mem_lexemes (List.mem_filter.1 (hts ht)).1 hname

/-- Each pair of parentheses that is printed around part of an expression is needed. Without it the
text is read as no expression, or as another one. -/
theorem parentheses_needed {source : String} {ts rest : List Lexeme} {n : Nat} {e x : Expr}
    {before after : List Piece} (hts : ts <:+ Lexeme.ofSource source)
    (hread : Parse.expr n ts = .ok (e, rest)) (hfloat : ∀ y, .float y ∉ e.literals)
    (hpair : Parenthesized e before x after) :
    Printer.expr 0 e = before ++ Printer.sym .leftParen :: Printer.bare x ++
        Printer.sym .rightParen :: after ∧
      ∀ m e' rest', Parse.expr m (Lexeme.ofSource
        (String.join ((before ++ Printer.bare x ++ after).map Piece.text))) = .ok (e', rest') →
          e'.erase ≠ e.erase := by
  have hprint : Printer.expr 0 e = Printer.bare e := by
    rw [Printer.expr, Printer.parenthesize]
    rfl
  refine ⟨hprint.trans hpair.bare_eq, fun m e' rest' hread' heq => ?_⟩
  -- The text is read as the tokens that are left.
  obtain ⟨us, rfl, hexpr⟩ := Parse.sound_expr n hread
  have hplain : Plain us :=
    plain_of_floatless (fun t ht => hts.subset (List.mem_append_left rest ht)) hexpr hfloat
  have hruns : Runs Printer.space (before ++ Printer.bare x ++ after ++ []) :=
    hpair.inline hexpr hplain rfl fun _ _ => trivial
  rw [List.append_nil] at hruns
  have htokens := ofSource_join hruns
  -- They have one opening parenthesis less than are printed for the same expression.
  obtain ⟨vs, hvs, hexpr'⟩ := Parse.sound_expr m hread'
  have hcount := parens_expr_le hexpr' 0 (by decide) (by decide)
  rw [parens_expr_of_le (Nat.zero_le _), ← bare_erase, heq, bare_erase, hpair.bare_eq] at hcount
  rw [hvs, List.map_append] at htokens
  have hleft := congrArg parens htokens
  simp only [tokens_append, parens_append, Printer.sym, tokens_token, parens_cons,
    if_true] at hcount hleft
  omega

/-- Without the inner pair the operators would group to the left. -/
theorem parentheses_needed_nested :
    let inner := Expr.binary ⟨5, 8⟩ .sub (.name ⟨5, 6⟩ "b") (.name ⟨7, 8⟩ "c")
    let e := Expr.unary ⟨0, 8⟩ .neg (.binary ⟨2, 8⟩ .sub (.name ⟨2, 3⟩ "a") inner)
    let before := [Printer.sym .minus, Printer.sym .leftParen, Printer.word "a", Printer.space,
      Printer.sym .minus, Printer.space]
    let after := [Printer.sym .rightParen]
    Parse.expr 11 (Lexeme.ofSource "-(a-(b-c))") = .ok (e, []) ∧
      Parenthesized e before inner after ∧
      Printer.expr 0 e = before ++ Printer.sym .leftParen :: Printer.bare inner ++
        Printer.sym .rightParen :: after ∧
      ∀ m e' rest', Parse.expr m (Lexeme.ofSource
        (String.join ((before ++ Printer.bare inner ++ after).map Piece.text))) = .ok (e', rest') →
          e'.erase ≠ e.erase := by
  intro inner e before after
  have hsource : Lexeme.ofSource "-(a-(b-c))" =
      [⟨.symbol .minus, ⟨0, 1⟩⟩, ⟨.symbol .leftParen, ⟨1, 2⟩⟩, ⟨.ident "a", ⟨2, 3⟩⟩,
        ⟨.symbol .minus, ⟨3, 4⟩⟩, ⟨.symbol .leftParen, ⟨4, 5⟩⟩, ⟨.ident "b", ⟨5, 6⟩⟩,
        ⟨.symbol .minus, ⟨6, 7⟩⟩, ⟨.ident "c", ⟨7, 8⟩⟩, ⟨.symbol .rightParen, ⟨8, 9⟩⟩,
        ⟨.symbol .rightParen, ⟨9, 10⟩⟩] := by
    decide +kernel
  have hread : Parse.expr 11 (Lexeme.ofSource "-(a-(b-c))") = .ok (e, []) := by
    rw [hsource]
    rfl
  have hright : parts (.binary ⟨2, 8⟩ .sub (.name ⟨2, 3⟩ "a") inner) =
      [.inner 5 (.name ⟨2, 3⟩ "a"), .piece Printer.space, .piece (Printer.sym .minus),
        .piece Printer.space] ++ .inner 6 inner :: [] := rfl
  have hoperand : parts e = [.piece (Printer.sym .minus)] ++
      .inner 7 (.binary ⟨2, 8⟩ .sub (.name ⟨2, 3⟩ "a") inner) :: [] := rfl
  have hpair : Parenthesized e before inner after := by
    have hpair := Parenthesized.within hoperand (by decide) (.part hright (by decide))
    simpa [Part.layout, Printer.expr, Printer.bare, Printer.parenthesize, Printer.strength,
      Printer.atomStrength] using hpair
  refine ⟨hread, hpair, parentheses_needed (List.suffix_refl _) hread ?_ hpair⟩
  simp [e, inner, Expr.literals]

end GenLang
