import GenLang.Proofs.Syntax.Completeness
import GenLang.Proofs.Syntax.Layout

/-!
# Parts of a printed expression

The layout of an expression is pieces of its own with the layouts of other expressions between
them. These places are told apart by what may stand there and not by what does: anything that may
stand where an expression may. So the layout of an expression is one of these things as well, and
stays one if part of it is replaced.
-/

namespace GenLang

open Text Lexer Grammar Piece

/-! ## Literals -/

theorem toInt_ofNat {n : Nat} (h : n ≤ maxInt) : (Int64.ofNat n).toInt = n := by
  rw [← Int64.ofInt_eq_ofNat]
  unfold maxInt at h
  exact Int64.toInt_ofInt_of_le (by omega) (by omega)

theorem literalOf_toString {n : Nat} (h : n ≤ maxInt) :
    LiteralOf (.int (toString n)) (.int (Int64.ofNat n)) := by
  have hback := Decimal.natOfDigits_toString n
  have hlit := @LiteralOf.int (toString n) (by rwa [hback])
  rwa [hback] at hlit

theorem literalOf_escape (s : String) :
    LiteralOf (.str ("\"" ++ String.ofList (Printer.escape s.toList) ++ "\"")) (.str s) := by
  have hlit := @LiteralOf.str ("\"" ++ String.ofList (Printer.escape s.toList) ++ "\"")
  have hinner : (("\"" ++ String.ofList (Printer.escape s.toList) ++ "\"").toList.drop 1).dropLast =
      Printer.escape s.toList := by
    simp
  rwa [hinner, unescape_escape, String.ofList_toList] at hlit

/-- What a literal token other than a float stands for is printed as one token. -/
theorem literal_spelled {t : Token} {l : Literal} (h : LiteralOf t l) (hfloat : ∀ x, t ≠ .float x) :
    ∃ u, Printer.literal l = [.token u] ∧ Spelled u ∧ LiteralOf u l := by
  cases h with
  | @int text fits =>
    have hvalue := toInt_ofNat fits
    have hneg : ¬ Int64.ofNat (Decimal.natOfDigits text.toList) < 0 := by
      rw [Int64.lt_iff_toInt_lt, hvalue]
      exact Int.not_lt.2 (Int.natCast_nonneg _)
    refine ⟨_, ?_, .int (Decimal.natOfDigits text.toList), literalOf_toString fits⟩
    rw [Printer.literal, if_neg hneg, hvalue]
    rfl
  | float => exact absurd rfl (hfloat _)
  | str | verbatim => exact ⟨_, rfl, .str _, literalOf_escape _⟩
  | true_ => exact ⟨_, rfl, .keyword _, .true_⟩
  | false_ => exact ⟨_, rfl, .keyword _, .false_⟩
  | null => exact ⟨_, rfl, .keyword _, .null⟩

/-! ## Pieces beside an expression -/

/-- Pieces that an expression may stand behind: blanks and symbols, but not a dot. -/
def opener : Piece → Bool
  | .blank _ => true
  | .token (.symbol s) => s != .dot
  | .token _ => false

/-- Pieces that an expression may begin with. -/
def opens : Piece → Bool
  | .token (.ident _) | .token (.keyword _) | .token (.int _) | .token (.str _) => true
  | .token (.symbol .leftParen) | .token (.symbol .leftBracket) => true
  | .token (.symbol .bang) | .token (.symbol .minus) => true
  | _ => false

/-- Pieces that an expression may end with. -/
def closes : Piece → Bool
  | .token (.ident _) | .token (.keyword _) | .token (.int _) | .token (.str _) => true
  | .token (.symbol .rightParen) | .token (.symbol .rightBracket) => true
  | _ => false

theorem meets_of_opener {p q : Piece} (hp : opener p) (hq : opens q) : meets p q := by
  match p with
  | .blank _ => rfl
  | .token (.symbol s) =>
    have hs : s ≠ .dot := bne_iff_ne.1 hp
    match q with
    | .token (.symbol u) =>
      cases u <;> first | (cases hq; done) | (cases s <;> first | rfl | exact absurd rfl hs)
    | .token (.ident _) | .token (.keyword _) | .token (.int _) | .token (.str _) =>
      cases s <;> first | rfl | exact absurd rfl hs
    | .token (.float _) | .token (.verbatim _) | .token (.unterminated _) | .token (.comment _)
    | .token (.error _) | .blank _ => cases hq

theorem meets_of_closes {p : Piece} {s : Symbol} (hp : closes p) (hs : clings s = false) :
    meets p (.token (.symbol s)) := by
  match p with
  | .token (.symbol u) => cases u <;> first | (cases hp; done) | simp [meets, hs]
  | .token (.ident _) | .token (.keyword _) | .token (.int _) | .token (.str _) =>
    simp [meets, hs]
  | .token (.float _) | .token (.verbatim _) | .token (.unterminated _) | .token (.comment _)
  | .token (.error _) | .blank _ => cases hp

theorem meets_blank (p : Piece) (s : String) : meets p (.blank s) := by
  unfold meets
  split
  all_goals first | rfl | simp_all

theorem runs_sym {s : Symbol} (hs : clings s = false) {q : Piece} (hq : closes q)
    {rest : List Piece} (h : Runs (Printer.sym s) rest) : Runs q (Printer.sym s :: rest) :=
  ⟨.symbol s, meets_of_closes hq hs, h⟩

theorem runs_space (q : Piece) {rest : List Piece} (h : Runs Printer.space rest) :
    Runs q (Printer.space :: rest) :=
  ⟨readable_blank (by decide) (by decide), meets_blank q _, h⟩

/-- Pieces that may stand where an expression may. -/
def Inline (ps : List Piece) : Prop :=
  ∀ ⦃p rest⦄, opener p → (∀ q, closes q → Runs q rest) → Runs p (ps ++ rest)

theorem inline_token {t : Token} (ht : Spelled t) (hopens : opens (.token t))
    (hcloses : closes (.token t)) : Inline [.token t] :=
  fun _ _ hp hrest => ⟨ht, meets_of_opener hp hopens, hrest _ hcloses⟩

theorem runs_commaSep {items : List (List Piece)} (h : ∀ x ∈ items, Inline x) {p : Piece}
    {rest : List Piece} (hp : opener p) (hempty : Runs p rest)
    (hrest : ∀ q, closes q → Runs q rest) : Runs p (Printer.commaSep items ++ rest) := by
  match items with
  | [] => exact hempty
  | [x] => exact h x List.mem_cons_self hp hrest
  | x :: y :: items =>
    simp only [Printer.commaSep, List.append_assoc, List.cons_append]
    refine h x List.mem_cons_self hp fun q hq => runs_sym rfl hq (runs_space _ ?_)
    exact runs_commaSep (fun z hz => h z (List.mem_cons_of_mem x hz)) rfl
      (runs_of_blank (hrest (.token (.symbol .rightParen)) rfl)) hrest

/-- Items between brackets or parentheses. -/
theorem runs_items {items : List (List Piece)} (h : ∀ x ∈ items, Inline x) {o c : Symbol}
    (ho : opener (Printer.sym o)) (hoc : meets (Printer.sym o) (Printer.sym c))
    (hc : clings c = false) {rest : List Piece} (hrest : Runs (Printer.sym c) rest) :
    Runs (Printer.sym o) (Printer.commaSep items ++ Printer.sym c :: rest) :=
  runs_commaSep h ho ⟨.symbol c, hoc, hrest⟩ fun _ hq => runs_sym hc hq hrest

/-- Not a float, and a name to the lexer if it is a name. -/
def PlainToken (t : Token) : Prop :=
  (∀ name, t = .ident name → IsWord name) ∧ ∀ x, t ≠ .float x

def Plain (ts : List Lexeme) : Prop :=
  ∀ t ∈ ts, PlainToken t.token

@[simp] theorem plain_cons {t : Lexeme} {ts : List Lexeme} :
    Plain (t :: ts) ↔ PlainToken t.token ∧ Plain ts := by
  simp [Plain]

@[simp] theorem plain_append {ts us : List Lexeme} : Plain (ts ++ us) ↔ Plain ts ∧ Plain us := by
  simp [Plain, or_imp, forall_and]

theorem Plain.subset {ts us : List Lexeme} (h : Plain ts) (hus : us ⊆ ts) : Plain us :=
  fun t ht => h t (hus ht)

theorem isWord_of_plain {i : Ident} {ts : List Lexeme} (h : Plain (word i :: ts)) :
    IsWord i.name :=
  (h _ List.mem_cons_self).1 _ rfl

theorem inline_literal {t : Token} {l : Literal} (ht : LiteralOf t l) (hspelled : Spelled t) :
    Inline [.token t] := by
  cases ht with
  | float | verbatim => cases hspelled
  | int | str | true_ | false_ | null => exact inline_token hspelled rfl rfl

theorem runs_name {name : String} (h : IsWord name) {p : Piece} (hp : meets p (Printer.word name))
    {rest : List Piece} (hrest : Runs (Printer.word name) rest) :
    Runs p (Printer.word name :: rest) :=
  ⟨.ident h, hp, hrest⟩

/-! ## Parts of a layout -/

namespace Printer

/-- A piece of the layout of an expression, or the place of an expression in it and how tight that
has to bind. -/
inductive Part where
  | piece (p : Piece)
  | inner (least : Nat) (e : Expr)

def Part.layout : Part → List Piece
  | .piece p => [p]
  | .inner least e => expr least e

/-- Expressions with commas between them. -/
def argParts : List Expr → List Part
  | [] => []
  | [e] => [.inner 0 e]
  | e :: es => .inner 0 e :: .piece (sym .comma) :: .piece space :: argParts es

/-- What the layout of an expression consists of. -/
def parts : Expr → List Part
  | .lit _ l => (literal l).map .piece
  | .name _ n => [.piece (word n)]
  | .self _ => [.piece (kw .self_)]
  | .list _ es =>
    .piece (sym .leftBracket) :: (argParts es ++ [.piece (sym .rightBracket)])
  | .new _ i es =>
    .piece (kw .new_) :: .piece space :: .piece (word i.name) :: .piece (sym .leftParen) ::
      (argParts es ++ [.piece (sym .rightParen)])
  | .member _ e i => [.inner atomStrength e, .piece (sym .dot), .piece (word i.name)]
  | .call _ e es =>
    .inner atomStrength e :: .piece (sym .leftParen) ::
      (argParts es ++ [.piece (sym .rightParen)])
  | .index _ e i =>
    [.inner atomStrength e, .piece (sym .leftBracket), .inner 0 i, .piece (sym .rightBracket)]
  | .unary _ .not e => [.piece (sym .bang), .inner prefixStrength e]
  | .unary _ .neg e => [.piece (sym .minus), .inner prefixStrength e]
  | .await _ e => [.piece (kw .await), .piece space, .inner prefixStrength e]
  | .binary _ op a b =>
    [.inner op.precedence a, .piece space, .piece (sym op.symbol), .piece space,
      .inner (op.precedence + 1) b]

/-- Pieces of parts. -/
def layout (ps : List Part) : List Piece :=
  ps.flatMap Part.layout

@[simp] theorem layout_nil : layout [] = [] := rfl

@[simp] theorem layout_cons (p : Part) (ps : List Part) :
    layout (p :: ps) = p.layout ++ layout ps := by
  rw [layout, List.flatMap_cons, layout]

@[simp] theorem layout_append (ps qs : List Part) : layout (ps ++ qs) = layout ps ++ layout qs :=
  List.flatMap_append

theorem layout_argParts (es : List Expr) : layout (argParts es) = commaSep (args es) := by
  induction es with
  | nil => rw [argParts, args, commaSep, layout_nil]
  | cons e es ih =>
    cases es with
    | nil => simp [argParts, Part.layout, args, commaSep]
    | cons e' es =>
      rw [args] at ih
      simp only [argParts, layout_cons, Part.layout, args, commaSep, ih, List.cons_append,
        List.nil_append]

theorem layout_literal (ps : List Piece) : layout (ps.map .piece) = ps := by
  induction ps with
  | nil => rfl
  | cons p ps ih => rw [List.map_cons, layout_cons, ih, Part.layout, List.singleton_append]

theorem bare_eq_layout (e : Expr) : bare e = layout (parts e) := by
  cases e with
  | lit => rw [bare, parts, layout_literal]
  | unary _ op => cases op <;> simp [bare, parts, Part.layout]
  | _ => simp [bare, parts, Part.layout, layout_argParts]

end Printer

open Printer (Part parts layout)

/-! ## What may stand in the places of a layout -/

theorem Inline.parenthesize {ps : List Piece} (h : Inline ps) (needed : Bool) :
    Inline (Printer.parenthesize needed ps) := by
  intro p rest hp hrest
  rw [Printer.parenthesize]
  split
  · simp only [List.cons_append, List.append_assoc, List.nil_append]
    refine ⟨.symbol _, meets_of_opener hp rfl, h rfl fun q hq => ?_⟩
    exact runs_sym rfl hq (hrest _ rfl)
  · exact h hp hrest

/-- Pieces for parts, with anything that may stand where an expression may for the expressions
among them. -/
inductive Fills : List Part → List Piece → Prop
  | nil : Fills [] []
  | piece {ps qs} (p : Piece) (h : Fills ps qs) : Fills (.piece p :: ps) (p :: qs)
  | inner {ps qs xs} {least : Nat} {e : Expr} (hxs : Inline xs) (h : Fills ps qs) :
      Fills (.inner least e :: ps) (xs ++ qs)

theorem fills_nil {qs : List Piece} : Fills [] qs ↔ qs = [] := by
  constructor
  · intro h
    cases h
    rfl
  · rintro rfl
    exact .nil

theorem fills_piece {p : Piece} {ps : List Part} {qs : List Piece} :
    Fills (.piece p :: ps) qs ↔ ∃ rest, qs = p :: rest ∧ Fills ps rest := by
  constructor
  · intro h
    cases h with
    | piece p h => exact ⟨_, rfl, h⟩
  · rintro ⟨rest, rfl, h⟩
    exact .piece p h

theorem fills_inner {least : Nat} {e : Expr} {ps : List Part} {qs : List Piece} :
    Fills (.inner least e :: ps) qs ↔ ∃ xs rest, qs = xs ++ rest ∧ Inline xs ∧ Fills ps rest := by
  constructor
  · intro h
    cases h with
    | inner hxs h => exact ⟨_, _, rfl, hxs, h⟩
  · rintro ⟨xs, rest, rfl, hxs, h⟩
    exact .inner hxs h

theorem Fills.append {ps ps' : List Part} {qs qs' : List Piece} (h : Fills ps qs)
    (h' : Fills ps' qs') : Fills (ps ++ ps') (qs ++ qs') := by
  induction h with
  | nil => exact h'
  | piece p _ ih => exact .piece p ih
  | inner hxs _ ih =>
    rw [List.append_assoc]
    exact .inner hxs ih

theorem fills_layout {ps : List Part}
    (h : ∀ least e, .inner least e ∈ ps → Inline (Printer.expr least e)) :
    Fills ps (layout ps) := by
  induction ps with
  | nil => exact .nil
  | cons p ps ih =>
    have hothers := ih fun least e he => h least e (List.mem_cons_of_mem p he)
    rw [Printer.layout_cons]
    cases p with
    | piece p => exact .piece p hothers
    | inner least e => exact .inner (h least e List.mem_cons_self) hothers

/-- What fills the places of arguments is items with commas between them. -/
theorem fills_argParts {es : List Expr} {ps : List Part} {qs : List Piece}
    (h : Fills (Printer.argParts es ++ ps) qs) : ∃ items rest, items.length = es.length ∧
      qs = Printer.commaSep items ++ rest ∧ (∀ x ∈ items, Inline x) ∧ Fills ps rest := by
  induction es generalizing qs with
  | nil => exact ⟨[], qs, rfl, rfl, by simp, h⟩
  | cons e es ih =>
    cases es with
    | nil =>
      obtain ⟨xs, rest, rfl, hxs, h⟩ := fills_inner.1 h
      exact ⟨[xs], rest, rfl, rfl, by simpa using hxs, h⟩
    | cons e' es =>
      simp only [Printer.argParts, List.cons_append, fills_inner, fills_piece] at h
      obtain ⟨xs, _, rfl, hxs, _, rfl, _, rfl, h⟩ := h
      obtain ⟨items, rest, hlength, rfl, hitems, hrest⟩ := ih h
      obtain ⟨y, items, rfl⟩ := List.exists_cons_of_length_eq_add_one hlength
      refine ⟨xs :: y :: items, rest, by simpa using hlength, by simp [Printer.commaSep], ?_, hrest⟩
      simpa using ⟨hxs, by simpa using hitems⟩

/-! ### One form of expression -/

section

variable {e e' : Expr} {es : List Expr} {s : Span} {i : Ident} {ps : List Piece}

theorem inline_list (h : Fills (parts (.list s es)) ps) : Inline ps := by
  simp only [parts, fills_piece] at h
  obtain ⟨_, rfl, h⟩ := h
  obtain ⟨items, _, -, rfl, hitems, h⟩ := fills_argParts h
  simp only [fills_piece, fills_nil] at h
  obtain ⟨_, rfl, rfl⟩ := h
  intro p rest hp hrest
  simp only [List.cons_append, List.append_assoc, List.nil_append]
  refine ⟨.symbol _, meets_of_opener hp rfl, ?_⟩
  exact runs_items hitems rfl rfl rfl (hrest _ rfl)

theorem inline_new (hi : IsWord i.name) (h : Fills (parts (.new s i es)) ps) : Inline ps := by
  simp only [parts, fills_piece] at h
  obtain ⟨_, rfl, _, rfl, _, rfl, _, rfl, h⟩ := h
  obtain ⟨items, _, -, rfl, hitems, h⟩ := fills_argParts h
  simp only [fills_piece, fills_nil] at h
  obtain ⟨_, rfl, rfl⟩ := h
  intro p rest hp hrest
  simp only [List.cons_append, List.append_assoc, List.nil_append]
  refine ⟨.keyword _, meets_of_opener hp rfl, runs_space _ (runs_name hi rfl ?_)⟩
  refine runs_sym rfl rfl ?_
  exact runs_items hitems rfl rfl rfl (hrest _ rfl)

theorem inline_member (hi : IsWord i.name) (h : Fills (parts (.member s e i)) ps) :
    Inline ps := by
  simp only [parts, fills_inner, fills_piece, fills_nil] at h
  obtain ⟨xs, _, rfl, hxs, _, rfl, _, rfl, rfl⟩ := h
  intro p rest hp hrest
  simp only [List.append_assoc, List.cons_append, List.nil_append]
  refine hxs hp fun q hq => runs_sym rfl hq ?_
  exact runs_name hi rfl (hrest _ rfl)

/-- Behind the callee comes a parenthesis, which may stand behind all that closes an expression. -/
theorem inline_call (h : Fills (parts (.call s e es)) ps) : Inline ps := by
  simp only [parts, fills_inner, fills_piece] at h
  obtain ⟨xs, _, rfl, hxs, _, rfl, h⟩ := h
  obtain ⟨items, _, -, rfl, hitems, h⟩ := fills_argParts h
  simp only [fills_piece, fills_nil] at h
  obtain ⟨_, rfl, rfl⟩ := h
  intro p rest hp hrest
  simp only [List.append_assoc, List.cons_append, List.nil_append]
  refine hxs hp fun q hq => runs_sym rfl hq ?_
  exact runs_items hitems rfl rfl rfl (hrest _ rfl)

theorem inline_index (h : Fills (parts (.index s e e')) ps) : Inline ps := by
  simp only [parts, fills_inner, fills_piece, fills_nil] at h
  obtain ⟨xs, _, rfl, hxs, _, rfl, ys, _, rfl, hys, _, rfl, rfl⟩ := h
  intro p rest hp hrest
  simp only [List.append_assoc, List.cons_append, List.nil_append]
  refine hxs hp fun q hq => runs_sym rfl hq ?_
  exact hys rfl fun q hq => runs_sym rfl hq (hrest _ rfl)

theorem inline_unary {op : UnaryOp} (h : Fills (parts (.unary s op e)) ps) : Inline ps := by
  cases op <;>
  · simp only [parts, fills_inner, fills_piece, fills_nil] at h
    obtain ⟨_, rfl, xs, _, rfl, hxs, rfl⟩ := h
    intro p rest hp hrest
    rw [List.append_nil, List.cons_append]
    exact ⟨.symbol _, meets_of_opener hp rfl, hxs rfl hrest⟩

theorem inline_await (h : Fills (parts (.await s e)) ps) : Inline ps := by
  simp only [parts, fills_inner, fills_piece, fills_nil] at h
  obtain ⟨_, rfl, _, rfl, xs, _, rfl, hxs, rfl⟩ := h
  intro p rest hp hrest
  rw [List.append_nil, List.cons_append, List.cons_append]
  exact ⟨.keyword _, meets_of_opener hp rfl, runs_space _ (hxs rfl hrest)⟩

theorem inline_binary {op : BinaryOp} (h : Fills (parts (.binary s op e e')) ps) : Inline ps := by
  simp only [parts, fills_inner, fills_piece, fills_nil] at h
  obtain ⟨xs, _, rfl, hxs, _, rfl, _, rfl, _, rfl, ys, _, rfl, hys, rfl⟩ := h
  intro p rest hp hrest
  simp only [List.append_assoc, List.cons_append, List.append_nil]
  refine hxs hp fun q _ => runs_space q ⟨.symbol _, rfl, runs_space _ ?_⟩
  exact hys rfl hrest

end

/-- Whatever is put where the parts of an expression stand may stand where the expression may. -/
theorem inline_of_fills {p : Nat} {ts : List Lexeme} {e : Expr} (h : IsExpr p ts e) :
    Plain ts → ∀ {ps}, Fills (parts e) ps → Inline ps := by
  induction h using IsExpr.induct with
  | paren _ ih =>
    intro hts
    rw [List.cons_append, plain_cons, plain_append] at hts
    exact ih hts.2.1
  | tighter _ _ ih => exact ih
  | @lit t l value =>
    intro hts ps hps
    obtain ⟨u, hu, hspelled, hlit⟩ := literal_spelled value (hts t List.mem_cons_self).2
    simp only [parts, hu, List.map_cons, List.map_nil, fills_piece, fills_nil] at hps
    obtain ⟨_, rfl, rfl⟩ := hps
    exact inline_literal hlit hspelled
  | name i =>
    intro hts ps hps
    simp only [parts, fills_piece, fills_nil] at hps
    obtain ⟨_, rfl, rfl⟩ := hps
    exact inline_token (.ident (isWord_of_plain hts)) rfl rfl
  | self s =>
    intro hts ps hps
    simp only [parts, fills_piece, fills_nil] at hps
    obtain ⟨_, rfl, rfl⟩ := hps
    exact inline_token (.keyword _) rfl rfl
  | list => exact fun _ => inline_list
  | @new _ i =>
    intro hts
    simp only [List.cons_append, plain_cons, plain_append] at hts
    exact inline_new (hts.2.1.1 i.name rfl)
  | @member _ _ _ i =>
    intro hts
    rw [plain_append, plain_cons, plain_cons] at hts
    exact inline_member (hts.2.2.1.1 i.name rfl)
  | call => exact fun _ => inline_call
  | index => exact fun _ => inline_index
  | not | neg => exact fun _ => inline_unary
  | await => exact fun _ => inline_await
  | binary => exact fun _ => inline_binary

/-! ## Expressions within expressions -/

theorem mem_of_commaList {α : Type} {P : Phrase α} {ts : List Lexeme} {as : List α}
    (h : CommaList P ts as) : ∀ a ∈ as, ∃ us ⊆ ts, us.length ≤ ts.length ∧ P us a := by
  induction h with
  | nil => exact fun _ ha => absurd ha List.not_mem_nil
  | one item =>
    exact fun _ ha => List.mem_singleton.1 ha ▸ ⟨_, List.Subset.refl _, le_rfl, item⟩
  | @cons ts c us a as first _ ih =>
    intro a ha
    rcases List.mem_cons.1 ha with rfl | ha
    · exact ⟨_, List.subset_append_left ts _, by simp, first⟩
    · obtain ⟨vs, hvs, hlength, hitem⟩ := ih a ha
      refine ⟨vs, fun t ht => by simp [hvs ht], ?_, hitem⟩
      rw [List.length_append, List.length_cons]
      omega

theorem mem_argParts {es : List Expr} {least : Nat} {e : Expr}
    (h : .inner least e ∈ Printer.argParts es) : e ∈ es := by
  induction es with
  | nil => cases h
  | cons e' es ih =>
    cases es with
    | nil =>
      simp only [Printer.argParts, List.mem_singleton, Part.inner.injEq] at h
      simp [h.2]
    | cons e'' es =>
      simp only [Printer.argParts, List.mem_cons, Part.inner.injEq, reduceCtorEq, false_or] at h
      rcases h with ⟨-, rfl⟩ | h
      · exact List.mem_cons_self
      · exact List.mem_cons_of_mem _ (ih h)

theorem isExpr_of_mem_argParts {ts : List Lexeme} {es : List Expr} {least : Nat} {x : Expr}
    (h : CommaList (IsExpr 1) ts es) (hx : .inner least x ∈ Printer.argParts es) :
    ∃ us ⊆ ts, us.length ≤ ts.length ∧ IsExpr 1 us x :=
  mem_of_commaList h x (mem_argParts hx)

/-- The expressions an expression is put together from are among its tokens, and not all of them. -/
theorem isExpr_of_mem_parts {p : Nat} {ts : List Lexeme} {e : Expr} (h : IsExpr p ts e)
    {least : Nat} {x : Expr} (hx : .inner least x ∈ parts e) :
    ∃ us ⊆ ts, us.length < ts.length ∧ IsExpr 1 us x := by
  induction h using IsExpr.induct with
  | lit => simp [parts] at hx
  | name | self => simp [parts] at hx
  -- Each part was read from fewer lexemes than the whole, and stands as an expression by itself.
  | paren _ ih =>
    obtain ⟨us, hus, hlength, hinner⟩ := ih hx
    exact ⟨us, fun t ht => by simp [hus ht], by simp; omega, hinner⟩
  | tighter _ _ ih => exact ih hx
  | list items | new items =>
    obtain ⟨us, hus, hlength, hinner⟩ := isExpr_of_mem_argParts items (by simpa [parts] using hx)
    exact ⟨us, fun t ht => by simp [hus ht], by simp; omega, hinner⟩
  | member target =>
    obtain ⟨-, rfl⟩ : _ ∧ x = _ := by simpa [parts] using hx
    exact ⟨_, List.subset_append_left _ _, by simp, target.loosen (by decide) (by decide)⟩
  | call callee args =>
    simp only [parts, List.mem_cons, List.mem_append, Part.inner.injEq, reduceCtorEq, false_or,
      List.not_mem_nil, or_false] at hx
    rcases hx with ⟨-, rfl⟩ | hx
    · exact ⟨_, fun t ht => by simp [ht], by simp, callee.loosen (by decide) (by decide)⟩
    · obtain ⟨us, hus, hlength, hinner⟩ := isExpr_of_mem_argParts args hx
      exact ⟨us, fun t ht => by simp [hus ht], by simp; omega, hinner⟩
  | index target position =>
    simp only [parts, List.mem_cons, Part.inner.injEq, reduceCtorEq, false_or,
      List.not_mem_nil, or_false] at hx
    rcases hx with ⟨-, rfl⟩ | ⟨-, rfl⟩
    · exact ⟨_, fun t ht => by simp [ht], by simp, target.loosen (by decide) (by decide)⟩
    · exact ⟨_, fun t ht => by simp [ht], by simp; omega, position⟩
  | not operand | neg operand | await operand =>
    obtain ⟨-, rfl⟩ : _ ∧ x = _ := by simpa [parts] using hx
    exact ⟨_, List.subset_cons_self _ _, by simp, operand.loosen (by decide) (by decide)⟩
  | @binary op _ _ _ _ _ lhs rhs =>
    have hlow := op.precedence_pos
    have hhigh := op.precedence_le
    simp only [parts, List.mem_cons, Part.inner.injEq, reduceCtorEq, false_or,
      List.not_mem_nil, or_false] at hx
    rcases hx with ⟨-, rfl⟩ | ⟨-, rfl⟩
    · exact ⟨_, List.subset_append_left _ _, by simp, lhs.loosen (by omega) (by omega)⟩
    · exact ⟨_, fun t ht => by simp [ht], by simp; omega, rhs.loosen (by omega) (by omega)⟩

/-- The layout of an expression may stand where an expression may. -/
theorem inline_bare {p : Nat} {ts : List Lexeme} {e : Expr} (h : IsExpr p ts e) (hts : Plain ts) :
    Inline (Printer.bare e) := by
  -- The expressions in it have fewer tokens.
  induction hn : ts.length using Nat.strong_induction_on generalizing p ts e with
  | _ n ih =>
    rw [Printer.bare_eq_layout]
    refine inline_of_fills h hts (fills_layout fun least x hx => ?_)
    obtain ⟨us, hus, hlength, hinner⟩ := isExpr_of_mem_parts h hx
    rw [Printer.expr]
    exact (ih _ (hn ▸ hlength) hinner (hts.subset hus) rfl).parenthesize _

/-- Where one part of an expression stands there may be anything that may stand where an expression
may. -/
theorem inline_in_place {p : Nat} {ts : List Lexeme} {e x : Expr} (h : IsExpr p ts e)
    (hts : Plain ts) {ps qs : List Part} {least : Nat}
    (hparts : parts e = ps ++ .inner least x :: qs) {xs : List Piece} (hxs : Inline xs) :
    Inline (layout ps ++ (xs ++ layout qs)) := by
  have hinner : ∀ l y, .inner l y ∈ ps ++ .inner least x :: qs → Inline (Printer.expr l y) := by
    intro l y hy
    obtain ⟨us, hus, -, hinner⟩ := isExpr_of_mem_parts h (hparts ▸ hy)
    rw [Printer.expr]
    exact (inline_bare hinner (hts.subset hus)).parenthesize _
  have hbefore : Fills ps (layout ps) :=
    fills_layout fun l y hy => hinner l y (List.mem_append_left _ hy)
  have hafter : Fills qs (layout qs) :=
    fills_layout fun l y hy => hinner l y (List.mem_append_right _ (List.mem_cons_of_mem _ hy))
  exact inline_of_fills h hts (hparts ▸ hbefore.append (.inner hxs hafter))

end GenLang
