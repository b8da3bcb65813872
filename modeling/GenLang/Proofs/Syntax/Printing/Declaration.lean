import GenLang.Proofs.Syntax.Printing.Statement

/-!
# Printed declarations

Modifiers come in one order and each at most once, whatever the source had: what a declaration
keeps of them is only which ones there are.
-/

namespace GenLang

open Text Lexer Grammar Piece

variable {α β : Type}

/-! ## Parts that may be missing -/

/-- What is printed behind a sign and a blank, if there is any of it. -/
def signed (lead : List Piece) (f : α → List Piece) : Option α → List Piece
  | none => []
  | some a => lead ++ f a

theorem spells_signed {P : Phrase α} {erase : α → β} {s : Symbol} {lead : List Piece}
    (hlead : tokens lead = [.symbol s]) {f : α → List Piece} {o : Option α}
    (h : ∀ a ∈ o, Spells P erase (tokens (f a)) a) :
    Spells (Optional (After P s)) (Option.map erase) (tokens (signed lead f o)) o := by
  cases o with
  | none => exact .optional_none
  | some a =>
    rw [signed, tokens_append, hlead]
    exact ((h a rfl).after s).optional_some

theorem runs_signed {lead : List Piece}
    (hlead : ∀ ⦃q rest⦄, closes q → Runs Printer.space rest → Runs q (lead ++ rest))
    {f : α → List Piece} {o : Option α} (h : ∀ a ∈ o, Inline (f a)) {rest : List Piece}
    (hrest : ∀ q, closes q → Runs q rest) {q : Piece} (hq : closes q) :
    Runs q (signed lead f o ++ rest) := by
  cases o with
  | none => exact hrest q hq
  | some a =>
    rw [signed, List.append_assoc]
    exact hlead hq (h a rfl rfl hrest)

/-- A sign between blanks. -/
theorem runs_spaced {s : Symbol} ⦃q : Piece⦄ ⦃rest : List Piece⦄ (_ : closes q)
    (hrest : Runs Printer.space rest) :
    Runs q ([Printer.space, Printer.sym s, Printer.space] ++ rest) :=
  runs_space q ⟨.symbol s, rfl, runs_space _ hrest⟩

/-- The value a field or a parameter begins with. -/
abbrev assigned (f : α → List Piece) (o : Option α) : List Piece :=
  signed [Printer.space, Printer.sym .assign, Printer.space] f o

/-! ## Names -/

/-- A name by itself. -/
def named (i : Ident) : List Piece :=
  [Printer.word i.name]

theorem inline_named {i : Ident} (h : IsWord i.name) : Inline (named i) :=
  inline_token (.ident h) rfl rfl

theorem spells_named (i : Ident) : Spells IsName Ident.erase (tokens (named i)) i :=
  .ident i

theorem isWord_typeName {s : Symbol} {ts : List Lexeme} {i : Option Ident}
    (h : Optional (After IsName s) ts i) (hts : Plain ts) : ∀ j ∈ i, IsWord j.name := by
  cases h with
  | none => rintro _ ⟨⟩
  | some item =>
    cases item with
    | mk item =>
      cases item
      rintro _ ⟨⟩
      exact isWord_of_plain (plain_cons.1 hts).2

theorem isWord_names {ts : List Lexeme} {is : List Ident} (h : CommaList1 IsName ts is)
    (hts : Plain ts) : ∀ i ∈ is, IsWord i.name := by
  induction h with
  | one item =>
    cases item
    exact fun _ hi => List.mem_singleton.1 hi ▸ isWord_of_plain hts
  | cons first others ih =>
    cases first
    have hname := isWord_of_plain hts
    simp only [List.cons_append, List.nil_append, plain_cons] at hts
    intro i hi
    rcases List.mem_cons.1 hi with rfl | hi
    · exact hname
    · exact ih hts.2.2 i hi

theorem spells_names (i : Ident) (is : List Ident) :
    Spells (CommaList1 IsName) (List.map Ident.erase) (tokens (Printer.names (i :: is)))
      (i :: is) := by
  induction is generalizing i with
  | nil => exact (Spells.ident i).commaList1_one
  | cons j is ih => exact (Spells.ident i).commaList1_cons (ih j)

/-! ## Parameters -/

theorem toInt_neg_ofNat {n : Nat} (h : n ≤ maxInt) : (-Int64.ofNat n).toInt = -(n : Int) := by
  have hvalue := toInt_ofNat h
  unfold maxInt at h
  rw [Int64.toInt_neg, hvalue]
  exact Int.bmod_eq_of_le (by simp; omega) (by simp; omega)

theorem literal_neg {n : Nat} (h : n ≤ maxInt) (hpos : 0 < n) :
    Printer.literal (.int (-Int64.ofNat n)) = [Printer.sym .minus, .token (.int (toString n))] := by
  have hvalue := toInt_neg_ofNat h
  have hneg : -Int64.ofNat n < 0 := by
    rw [Int64.lt_iff_toInt_lt, hvalue]
    simp
    omega
  rw [Printer.literal, if_pos hneg, hvalue, Int.neg_neg]
  rfl

theorem printable_plain {t : Lexeme} {l : Literal} (value : LiteralOf t.token l)
    (hfloat : ∀ x, t.token ≠ .float x) :
    Inline (Printer.literal l) ∧ Spells IsDefault id (tokens (Printer.literal l)) l := by
  obtain ⟨u, hu, hspelled, hlit⟩ := literal_spelled value hfloat
  rw [hu]
  refine ⟨inline_literal hlit hspelled, fun us hus => ?_⟩
  obtain ⟨s, _, rfl, hnil⟩ := map_token_eq_cons.1 hus
  obtain rfl := map_token_eq_nil.1 hnil
  exact ⟨l, .plain (t := ⟨u, s⟩) hlit, rfl⟩

/-- The default value of a parameter is printed with a minus of its own if it is below zero. -/
theorem printable_default {ts : List Lexeme} {l : Literal} (h : IsDefault ts l) (hts : Plain ts) :
    Inline (Printer.literal l) ∧ Spells IsDefault id (tokens (Printer.literal l)) l := by
  cases h with
  | plain value => exact printable_plain value (plain_cons.1 hts).1.2
  | @negInt m t n value =>
    obtain ⟨token, span⟩ := t
    cases value with
    | @int text fits =>
      generalize Decimal.natOfDigits text.toList = n at fits
      rcases Nat.eq_zero_or_pos n with rfl | hpos
      · -- Nothing is left of a minus before a zero.
        exact printable_plain (t := ⟨.int (toString 0), span⟩) (literalOf_toString fits) nofun
      · rw [literal_neg fits hpos]
        refine ⟨fun p rest hp hrest => ?_, fun us hus => ?_⟩
        · exact ⟨.symbol _, meets_of_opener hp rfl, .int n, rfl, hrest _ rfl⟩
        · simp only [Printer.sym, tokens_token, tokens_nil, map_token_eq_cons,
            map_token_eq_nil] at hus
          obtain ⟨m, _, rfl, s, _, rfl, rfl⟩ := hus
          exact ⟨_, .negInt (t := ⟨_, s⟩) (literalOf_toString fits), rfl⟩
  | @negFloat m t x value =>
    obtain ⟨token, span⟩ := t
    cases value
    exact absurd rfl ((plain_cons.1 (plain_cons.1 hts).2).1.2 _)

structure PrintableParam (p : Param) : Prop where
  inline : Inline (Printer.param p)
  spells : Spells IsParam Param.erase (tokens (Printer.param p)) p

theorem param_eq (p : Param) : Printer.param p =
    Printer.word p.name.name :: signed [Printer.sym .colon, Printer.space] named p.typeName ++
      assigned Printer.literal p.default := by
  obtain ⟨i, t, d⟩ := p
  cases t <;> cases d <;> rfl

theorem printable_param {ts : List Lexeme} {p : Param} (h : IsParam ts p) (hts : Plain ts) :
    PrintableParam p := by
  cases h with
  | @mk i as t ds d typeName default =>
    simp only [List.cons_append, plain_cons, plain_append] at hts
    have hi : IsWord i.name := hts.1.1 i.name rfl
    have ht := isWord_typeName typeName hts.2.1
    have hd : ∀ l ∈ d, Inline (Printer.literal l) ∧
        Spells IsDefault id (tokens (Printer.literal l)) l := by
      cases default with
      | none => rintro _ ⟨⟩
      | some item =>
        cases item with
        | mk item =>
          rintro _ ⟨⟩
          exact printable_default item (plain_cons.1 hts.2.2).2
    constructor
    · intro p rest hp hrest
      rw [param_eq, List.cons_append, List.cons_append, List.append_assoc]
      refine runs_name hi (meets_of_opener hp rfl) ?_
      refine runs_signed ?_ (fun t h => inline_named (ht t h)) (fun q hq => ?_) rfl
      · exact fun q rest hq h => runs_sym rfl hq (runs_space _ h)
      · exact runs_signed runs_spaced (fun l hl => (hd l hl).1) hrest hq
    · rw [param_eq, tokens_append, Printer.word, tokens_token]
      exact Spells.param (spells_signed rfl fun t _ => spells_named t)
        (spells_signed rfl fun l hl => (hd l hl).2)

/-! ## Modifiers -/

/-- The modifiers of a declaration, each with whether it is there. -/
def modifiers (flags : List (Bool × Keyword)) : List Piece :=
  flags.flatMap fun f => Printer.modifier f.1 f.2

theorem lined_modifiers (flags : List (Bool × Keyword)) : Lined (modifiers flags) := by
  refine lined_flatMap fun f _ rest hrest => ?_
  rw [Printer.modifier]
  split
  · exact ⟨.keyword _, rfl, runs_space _ (runs_of_blank hrest)⟩
  · exact hrest

theorem tokens_modifiers (flags : List (Bool × Keyword)) :
    tokens (modifiers flags) = (flags.filter (·.1)).map fun f => .keyword f.2 := by
  induction flags with
  | nil => rfl
  | cons f flags ih =>
    rw [modifiers, List.flatMap_cons, tokens_append, ← modifiers, ih, Printer.modifier]
    obtain ⟨present, k⟩ := f
    cases present <;> rfl

theorem any_modifiers (flags : List (Bool × Keyword)) (k : Keyword) :
    (tokens (modifiers flags)).any (· == .keyword k) =
      flags.any fun f => f.1 && decide (f.2 = k) := by
  rw [tokens_modifiers, List.any_map, List.any_filter]
  refine congrArg _ (funext fun f => congrArg _ ?_)
  rw [Bool.eq_iff_iff]
  simp

theorem modifiers_all {flags : List (Bool × Keyword)} {p : Token → Bool}
    (hp : ∀ f ∈ flags, p (.keyword f.2)) : ∀ t ∈ tokens (modifiers flags), p t := by
  rw [tokens_modifiers]
  intro t ht
  obtain ⟨f, hf, rfl⟩ := List.mem_map.1 ht
  exact hp f (List.mem_filter.1 hf).1

/-! ## Members -/

structure PrintableMember (m : Member) : Prop where
  lined : ∀ depth, Lined (Printer.member depth m)
  spells : ∀ depth, Spells IsMember Member.erase (tokens (Printer.member depth m)) m

theorem field_eq (depth : Nat) (f : FieldDecl) : Printer.field depth f =
    Printer.line depth (modifiers [(f.isStatic, .static_)] ++
      Printer.kw .let_ :: Printer.space :: Printer.word f.name.name ::
        assigned (Printer.expr 0) f.init ++ [Printer.sym .semicolon]) := by
  obtain ⟨i, isStatic, e, span⟩ := f
  cases isStatic <;> cases e <;> rfl

theorem printable_field_of_parts {f : FieldDecl} (hi : IsWord f.name.name)
    (he : ∀ e ∈ f.init, Printable e) : PrintableMember (.field f) := by
  constructor
  · intro depth
    rw [Printer.member, field_eq]
    refine lined_line (fun rest hrest => ?_) depth
    simp only [List.append_assoc, List.cons_append, List.nil_append]
    refine lined_modifiers _ ⟨.keyword _, rfl, runs_space _ (runs_name hi rfl ?_)⟩
    refine runs_signed runs_spaced (fun e h => (he e h).inline_expr 0) (fun q hq => ?_) rfl
    exact runs_sym rfl hq (hrest _)
  · intro depth
    have hinit : Spells _ _ (tokens (assigned (Printer.expr 0) f.init)) f.init :=
      spells_signed (s := .assign) rfl fun e h => (he e h).spells_value
    obtain ⟨i, isStatic, e, span⟩ := f
    rw [Printer.member, field_eq, tokens_line]
    simp only [tokens_append, Printer.kw, Printer.space, Printer.word, tokens_token, tokens_blank]
    -- a field has one modifier or none
    cases isStatic with
    | false => exact hinit.instanceField.fieldMember
    | true => exact hinit.staticField.fieldMember

theorem printable_field {ts : List Lexeme} {f : FieldDecl} (h : IsField ts f) (hts : Plain ts) :
    PrintableMember (.field f) := by
  cases h with
  | instance_ init =>
    simp only [List.cons_append, plain_cons, plain_append] at hts
    exact printable_field_of_parts (hts.2.1.1 _ rfl) (printable_init init hts.2.2.1)
  | static_ init =>
    simp only [List.cons_append, plain_cons, plain_append] at hts
    exact printable_field_of_parts (hts.2.2.1.1 _ rfl) (printable_init init hts.2.2.2.1)

/-- A method up to its body. -/
def methodHead (m : MethodDecl) : List Piece :=
  modifiers [(m.isStatic, .static_), (m.isAsync, .async_), (m.isNative, .native)] ++
    Printer.kw .fn_ :: Printer.space :: Printer.word m.name.name :: Printer.sym .leftParen ::
      Printer.commaSep (m.params.map Printer.param) ++ Printer.sym .rightParen ::
        signed [Printer.space, Printer.sym .arrow, Printer.space] named m.returns

theorem method_eq (depth : Nat) (m : MethodDecl) : Printer.method depth m =
    match m.body with
    | some b => Printer.blockAfter depth (methodHead m ++ [Printer.space]) b
    | none => Printer.line depth (methodHead m ++ [Printer.sym .semicolon]) := by
  obtain ⟨i, isStatic, isAsync, isNative, ps, r, b, span⟩ := m
  cases r <;> cases b <;> simp [Printer.method, methodHead, modifiers, signed, named]

section

variable {m : MethodDecl} (hparams : ∀ p ∈ m.params, PrintableParam p)

include hparams

theorem runs_methodHead (hi : IsWord m.name.name) (hreturns : ∀ i ∈ m.returns, IsWord i.name)
    {rest : List Piece} (hrest : ∀ q, closes q → Runs q rest) :
    Runs newline (methodHead m ++ rest) := by
  simp only [methodHead, List.append_assoc, List.cons_append]
  have hinline : ∀ x ∈ m.params.map Printer.param, Inline x := by
    intro x hx
    obtain ⟨p, hp, rfl⟩ := List.mem_map.1 hx
    exact (hparams p hp).inline
  refine lined_modifiers _ ⟨.keyword _, rfl, runs_space _ (runs_name hi rfl ?_)⟩
  refine runs_sym rfl rfl (runs_items hinline rfl rfl rfl ?_)
  exact runs_signed runs_spaced (fun i h => inline_named (hreturns i h)) hrest rfl

/-- The tokens up to a body and what spells a body behind them spell a method. -/
theorem spells_methodHead {toks : List Token}
    (hbody : Spells (fun ts b => ∃ stop, IsBody ts b stop) (Option.map Block.erase) toks m.body) :
    Spells IsMethod MethodDecl.erase (tokens (methodHead m) ++ toks) m := by
  have hlist := spells_commaList m.params fun p hp => (hparams p hp).spells
  have hreturns : Spells (Optional (After IsName .arrow)) _
      (tokens (signed [Printer.space, Printer.sym .arrow, Printer.space] named m.returns)) _ :=
    spells_signed rfl fun i _ => spells_named i
  have hmods : ∀ t ∈ tokens (modifiers [(m.isStatic, .static_), (m.isAsync, .async_),
      (m.isNative, .native)]), Parse.isMethodModifier t :=
    modifiers_all (by simp [Parse.isMethodModifier])
  have hmethod := Spells.method (i := m.name) (s := m.span) hmods (any_modifiers _ _).symm
    (any_modifiers _ _).symm (any_modifiers _ _).symm hlist hreturns hbody
  simpa [methodHead, Printer.kw, Printer.space, Printer.word, Printer.sym] using hmethod

end

theorem printable_method_of_parts {m : MethodDecl} (hi : IsWord m.name.name)
    (hparams : ∀ p ∈ m.params, PrintableParam p) (hreturns : ∀ i ∈ m.returns, IsWord i.name)
    (hbody : ∀ b ∈ m.body, PrintableBlock b) : PrintableMember (.method m) := by
  constructor
  · intro depth
    rw [Printer.member, method_eq]
    -- Without a body the head ends in a semicolon, with one it stands before the brace.
    cases hb : m.body with
    | none =>
      refine lined_line (fun rest hrest => ?_) depth
      rw [List.append_assoc]
      exact runs_methodHead hparams hi hreturns fun q hq => runs_sym rfl hq (hrest _)
    | some b =>
      refine lined_blockAfter (hbody b hb) (fun rest hrest => ?_) depth
      rw [List.append_assoc]
      exact runs_methodHead hparams hi hreturns fun q _ => runs_space q hrest
  · intro depth
    rw [Printer.member, method_eq]
    cases hb : m.body with
    | none =>
      have hnone := Spells.body_none
      rw [← hb] at hnone
      rw [tokens_line, tokens_append]
      exact (spells_methodHead hparams hnone).methodMember
    | some b =>
      have hsome := (spells_braced (hbody b hb) depth).body_some
      rw [← hb] at hsome
      rw [tokens_blockAfter, tokens_append, Printer.space, tokens_blank, tokens_nil,
        List.append_nil]
      exact (spells_methodHead hparams hsome).methodMember

theorem printable_method {ts : List Lexeme} {m : MethodDecl} (h : IsMethod ts m) (hts : Plain ts) :
    PrintableMember (.method m) := by
  cases h with
  | mk modifiers params returns body =>
    simp only [List.cons_append, List.append_assoc, plain_cons, plain_append] at hts
    obtain ⟨-, -, hi, -, hparams, -, hreturns, hbody⟩ := hts
    refine printable_method_of_parts (hi.1 _ rfl) ?_ (isWord_typeName returns hreturns) ?_
    · exact commaList_forall (fun _ _ h => printable_param h) params hparams
    · cases body with
      | none => rintro _ ⟨⟩
      | block block =>
        rintro _ ⟨⟩
        exact printable_block block hbody

theorem printable_member {ts : List Lexeme} {m : Member} (h : IsMember ts m) (hts : Plain ts) :
    PrintableMember m := by
  cases h with
  | field field => exact printable_field field hts
  | method method => exact printable_method method hts

theorem lined_members {ms : List Member} (h : ∀ m ∈ ms, PrintableMember m) (depth : Nat) :
    Lined (Printer.members depth ms) := by
  fun_induction Printer.members depth ms with
  | case1 => exact lined_nil
  | case2 m => exact (h m List.mem_cons_self).lined depth
  | case3 m m' rest ih =>
    have hm := (h m List.mem_cons_self).lined depth
    have hrest := ih fun d hd => h d (List.mem_cons_of_mem m hd)
    refine (hm.append ?_).append hrest
    split
    · exact lined_newline
    · exact lined_nil

/-- Empty lines are no tokens. -/
theorem tokens_members (depth : Nat) (ms : List Member) :
    tokens (Printer.members depth ms) = tokens (ms.flatMap (Printer.member depth)) := by
  fun_induction Printer.members depth ms with
  | case1 => rfl
  | case2 m => rw [List.flatMap_singleton]
  | case3 m m' rest ih =>
    have hblank : tokens (if Printer.isMethod m || Printer.isMethod m' then [.blank "\n"] else []) =
        [] := by
      split <;> rfl
    rw [tokens_append, tokens_append, hblank, List.append_nil, ih]
    exact (tokens_append _ _).symm

/-! ## Types -/

/-- Names between signs, unless there are none. -/
def listed (before : List Piece) (is : List Ident) (behind : List Piece) : List Piece :=
  if is.isEmpty then [] else before ++ Printer.names is ++ behind

/-- Names that are a list only if there are any. -/
def given (is : List Ident) : Option (List Ident) :=
  if is.isEmpty then none else some is

theorem getD_given (is : List Ident) : (given is).getD [] = is := by
  cases is <;> rfl

theorem spells_listed {P : Phrase (List Ident)} {before behind : List Piece} (is : List Ident)
    (h : ∀ j js, is = j :: js → Spells P (List.map Ident.erase)
      (tokens (before ++ Printer.names is ++ behind)) is) :
    Spells (Optional P) (Option.map (List.map Ident.erase)) (tokens (listed before is behind))
      (given is) := by
  cases is with
  | nil => exact .optional_none
  | cons j js => exact (h j js rfl).optional_some

theorem runs_names {is : List Ident} (his : ∀ i ∈ is, IsWord i.name) (hne : is ≠ []) {p : Piece}
    (hp : opener p) {rest : List Piece} (hrest : ∀ name, Runs (Printer.word name) rest) :
    Runs p (Printer.names is ++ rest) := by
  match is with
  | [i] => exact runs_name (his i List.mem_cons_self) (meets_of_opener hp rfl) (hrest i.name)
  | i :: j :: is =>
    refine runs_name (his i List.mem_cons_self) (meets_of_opener hp rfl) (runs_sym rfl rfl ?_)
    have hothers : ∀ k ∈ j :: is, IsWord k.name := fun k hk => his k (List.mem_cons_of_mem i hk)
    exact runs_space _ (runs_names hothers (List.cons_ne_nil j is) rfl hrest)

/-- The names between angle brackets. -/
def generics (is : List Ident) : List Piece :=
  listed [Printer.sym .less] is [Printer.sym .greater]

theorem spells_generics (is : List Ident) :
    Spells (Optional IsGenerics) (Option.map (List.map Ident.erase)) (tokens (generics is))
      (given is) := by
  refine spells_listed is ?_
  rintro j js rfl
  rw [tokens_append, tokens_append]
  exact (spells_names j js).generics

/-- The names behind a colon. -/
def bases (is : List Ident) : List Piece :=
  listed [Printer.space, Printer.sym .colon, Printer.space] is []

theorem spells_bases (is : List Ident) :
    Spells (Optional (After (CommaList1 IsName) .colon)) (Option.map (List.map Ident.erase))
      (tokens (bases is)) (given is) := by
  refine spells_listed is ?_
  rintro j js rfl
  rw [List.append_nil, tokens_append]
  exact (spells_names j js).after .colon

/-- A type up to its brace. -/
def typeHead (t : TypeDecl) : List Piece :=
  modifiers [(t.isAbstract, .abstract_), (t.isStatic, .static_)] ++
    Printer.kw (kindWord t.kind) :: Printer.space :: Printer.word t.name.name ::
      (generics t.generics ++ bases t.bases ++ [Printer.space])

theorem typeDecl_eq (t : TypeDecl) : Printer.typeDecl t =
    if t.members.isEmpty then
      Printer.line 0 (typeHead t ++ [Printer.sym .leftBrace, Printer.sym .rightBrace])
    else
      Printer.line 0 (typeHead t ++ [Printer.sym .leftBrace]) ++ Printer.members 1 t.members ++
        Printer.line 0 [Printer.sym .rightBrace] := by
  have hhead : typeHead t =
      Printer.modifier t.isAbstract .abstract_ ++ Printer.modifier t.isStatic .static_ ++
        [Printer.kw (kindWord t.kind), Printer.space, Printer.word t.name.name] ++
        (if t.generics.isEmpty then [] else
          [Printer.sym .less] ++ Printer.names t.generics ++ [Printer.sym .greater]) ++
        (if t.bases.isEmpty then [] else
          [Printer.space, Printer.sym .colon, Printer.space] ++ Printer.names t.bases) ++
        [Printer.space] := by
    simp only [typeHead, modifiers, generics, bases, listed, List.flatMap_cons,
      List.flatMap_nil, List.append_nil, List.append_assoc, List.cons_append, List.nil_append]
  rw [hhead]
  rfl

/-- The tokens of a type, whatever its lines are. -/
theorem tokens_typeDecl (t : TypeDecl) : tokens (Printer.typeDecl t) =
    tokens (typeHead t) ++ .symbol .leftBrace :: tokens (t.members.flatMap (Printer.member 1)) ++
      [.symbol .rightBrace] := by
  rw [typeDecl_eq]
  obtain ⟨k, i, isAbstract, isStatic, g, b, ms, span⟩ := t
  cases ms with
  | nil =>
    show tokens (Printer.line 0 _) = _
    rw [tokens_line, tokens_append, List.append_assoc]
    rfl
  | cons m ms =>
    show tokens (Printer.line 0 _ ++ Printer.members 1 (m :: ms) ++ _) = _
    simp only [tokens_append, tokens_line, tokens_members, Printer.sym, tokens_token, tokens_nil,
      List.append_assoc, List.cons_append, List.nil_append]

structure PrintableType (t : TypeDecl) : Prop where
  lined : Lined (Printer.typeDecl t)
  spells : Spells IsTypeDecl TypeDecl.erase (tokens (Printer.typeDecl t)) t

section

variable {t : TypeDecl} (hi : IsWord t.name.name) (hg : ∀ i ∈ t.generics, IsWord i.name)
  (hb : ∀ i ∈ t.bases, IsWord i.name)

include hi hg hb

theorem runs_typeHead {rest : List Piece} (hrest : Runs Printer.space rest) :
    Runs newline (typeHead t ++ rest) := by
  simp only [typeHead, List.append_assoc, List.cons_append, List.nil_append]
  refine lined_modifiers _ ⟨.keyword _, rfl, runs_space _ (runs_name hi rfl ?_)⟩
  have hbases : ∀ q, Runs q (bases t.bases ++ Printer.space :: rest) := by
    intro q
    rw [bases, listed]
    split
    · exact runs_space q hrest
    · next hne =>
      rw [List.append_nil]
      refine runs_space q ⟨.symbol _, rfl, runs_space _ ?_⟩
      exact runs_names hb (fun h => hne (List.isEmpty_iff.2 h)) rfl fun _ => runs_space _ hrest
  rw [generics, listed]
  split
  · exact hbases _
  · next hne =>
    rw [List.append_assoc]
    refine ⟨.symbol _, rfl, ?_⟩
    refine runs_names hg (fun h => hne (List.isEmpty_iff.2 h)) rfl fun _ => ?_
    exact ⟨.symbol _, rfl, hbases _⟩

theorem printable_typeDecl_of_parts (hmembers : ∀ m ∈ t.members, PrintableMember m) :
    PrintableType t := by
  constructor
  · rw [typeDecl_eq]
    have hlines := lined_members hmembers 1
    split
    · refine lined_line (fun rest hrest => ?_) 0
      rw [List.append_assoc]
      exact runs_typeHead hi hg hb ⟨.symbol _, rfl, .symbol _, rfl, hrest _⟩
    · refine ((lined_line (fun rest hrest => ?_) 0).append hlines).append
        (lined_line (fun rest hrest => ?_) 0)
      · rw [List.append_assoc]
        exact runs_typeHead hi hg hb ⟨.symbol _, rfl, hrest _⟩
      · exact ⟨.symbol _, rfl, hrest _⟩
  · have hgenerics := spells_generics t.generics
    have hbases := spells_bases t.bases
    have hspells := spells_many t.members fun m h => (hmembers m h).spells 1
    have hmods : ∀ u ∈ tokens (modifiers [(t.isAbstract, .abstract_), (t.isStatic, .static_)]),
        Parse.isTypeModifier u :=
      modifiers_all (by simp [Parse.isTypeModifier])
    have htype := Spells.typeDecl (k := t.kind) (i := t.name) (s := t.span) hmods
      (any_modifiers _ _).symm (any_modifiers _ _).symm (getD_given _) (getD_given _) hgenerics
      hbases hspells
    rw [tokens_typeDecl]
    simpa [typeHead, Printer.kw, Printer.space, Printer.word] using htype

end

theorem printable_typeDecl {ts : List Lexeme} {t : TypeDecl} (h : IsTypeDecl ts t)
    (hts : Plain ts) : PrintableType t := by
  cases h with
  | @mk mods k w i gs g bs b o vs ms c _ generics bases members =>
    simp only [List.cons_append, List.append_assoc, plain_cons, plain_append] at hts
    obtain ⟨-, -, hi, hgs, hbs, -, hvs, -⟩ := hts
    refine printable_typeDecl_of_parts (hi.1 _ rfl) ?_ ?_ ?_
    · cases generics with
      | none => exact fun _ h => absurd h List.not_mem_nil
      | some item =>
        cases item with
        | mk names =>
          simp only [List.cons_append, plain_cons, plain_append] at hgs
          exact isWord_names names hgs.2.1
    · cases bases with
      | none => exact fun _ h => absurd h List.not_mem_nil
      | some item =>
        cases item with
        | mk names => exact isWord_names names (plain_cons.1 hbs).2
    · exact many_forall (fun _ _ h => printable_member h) members hvs

/-! ## Files -/

theorem printable_file {ts : List Lexeme} {types : List TypeDecl} (h : IsFile ts types)
    (hts : Plain ts) : ∀ t ∈ types, PrintableType t :=
  many_forall (fun _ _ h => printable_typeDecl h) h hts

theorem lined_typeDecls {types : List TypeDecl} (h : ∀ t ∈ types, PrintableType t) :
    Lined (Printer.typeDecls types) := by
  fun_induction Printer.typeDecls types with
  | case1 => exact lined_nil
  | case2 t => exact (h t List.mem_cons_self).lined
  | case3 t rest _ ih =>
    have hrest := ih fun d hd => h d (List.mem_cons_of_mem t hd)
    exact (h t List.mem_cons_self).lined.append (lined_newline.append hrest)

theorem tokens_typeDecls (types : List TypeDecl) :
    tokens (Printer.typeDecls types) = tokens (types.flatMap Printer.typeDecl) := by
  fun_induction Printer.typeDecls types with
  | case1 => rfl
  | case2 t => rw [List.flatMap_singleton]
  | case3 t rest _ ih => rw [tokens_append, tokens_blank, ih, List.flatMap_cons, tokens_append]

theorem spells_file {types : List TypeDecl} (h : ∀ t ∈ types, PrintableType t) :
    Spells IsFile (List.map TypeDecl.erase) (tokens (Printer.typeDecls types)) types := by
  rw [tokens_typeDecls]
  exact spells_many types fun t ht => (h t ht).spells

end GenLang
