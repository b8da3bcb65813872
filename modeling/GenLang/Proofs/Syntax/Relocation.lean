import GenLang.Proofs.Syntax.Keys
import GenLang.Proofs.Syntax.Recognition
import GenLang.Proofs.Syntax.Phrases

/-!
# Phrases at other places

Which tree tokens stand for does not depend on where they stand, places in the tree apart. So a
canonical key, which is read as the tokens it was made of, holds the same declarations as its
source.
-/

namespace GenLang

open Text Grammar

variable {α β : Type}

/-- The tokens of a phrase of `Q` are one of `P` for the same tree wherever they stand. -/
def Moves (Q P : Phrase α) (erase : α → β) : Prop :=
  ∀ ⦃ts a⦄, Q ts a → Spells P erase (ts.map (·.token)) a

/-! ## Pieces of rules -/

theorem moves_name : Moves IsName IsName Ident.erase := by
  intro ts i h
  cases h
  exact .ident i

section

variable {Q P : Phrase α} {erase : α → β} (h : Moves Q P erase)

include h

theorem moves_optional : Moves (Optional Q) (Optional P) (Option.map erase) := by
  intro ts o ho
  cases ho with
  | none => exact .optional_none
  | some item => exact (h item).optional_some

theorem moves_after (s : Symbol) : Moves (After Q s) (After P s) erase := by
  intro ts a ha
  cases ha with
  | mk item => exact (h item).after s

theorem moves_many : Moves (Many Q) (Many P) (List.map erase) := by
  intro ts as has
  induction has with
  | nil => exact .many_nil
  | cons first _ ih =>
    rw [List.map_append]
    exact (h first).many_cons ih

theorem moves_commaList : Moves (CommaList Q) (CommaList P) (List.map erase) := by
  intro ts as has
  induction has with
  | nil => exact .commaList_nil
  | one item => exact (h item).commaList_one
  | cons first _ ih =>
    rw [List.map_append]
    exact (h first).commaList_cons ih

theorem moves_commaList1 : Moves (CommaList1 Q) (CommaList1 P) (List.map erase) := by
  intro ts as has
  induction has with
  | one item => exact (h item).commaList1_one
  | cons first _ ih =>
    rw [List.map_append]
    exact (h first).commaList1_cons ih

end

/-! ## Expressions -/

theorem moves_expr (p : Nat) : Moves (IsExpr p) (IsExpr p) Expr.erase := by
  intro ts e h
  induction h using IsExpr.induct with
  | lit value => exact .lit value
  | name i => exact .name i.name
  | self => exact .self
  | paren _ ih =>
    rw [List.map_append]
    exact ih.paren
  | list _ ih =>
    rw [List.map_append]
    exact (moves_commaList (fun _ _ h => h.2) ih).list
  | new _ ih =>
    rw [List.map_append]
    exact (moves_commaList (fun _ _ h => h.2) ih).new
  | member _ ih =>
    rw [List.map_append]
    exact ih.member
  | call _ _ ih ih' =>
    rw [List.map_append, List.map_append]
    exact ih.call (moves_commaList (fun _ _ h => h.2) ih')
  | index _ _ ih ih' =>
    rw [List.map_append, List.map_append]
    exact ih.index ih'
  | not _ ih => exact ih.not
  | neg _ ih => exact ih.neg
  | await _ ih => exact ih.await
  | binary _ _ ih ih' =>
    rw [List.map_append]
    exact ih.binary ih'
  | tighter below _ ih => exact ih.loosen (Nat.le_succ _) (Nat.succ_le_of_lt below)

theorem moves_init (s : Symbol) : Moves (Optional (After (IsExpr 1) s))
    (Optional (After (IsExpr 1) s)) (Option.map Expr.erase) :=
  moves_optional (moves_after (moves_expr 1) s)

/-! ## Statements -/

theorem moves_binding : Moves IsBinding IsBinding Ident.erase := by
  intro ts i h
  cases h
  exact .binding i

theorem moves_braced {Q : Phrase Stmt} (h : Moves Q IsStmt Stmt.erase) {o c : Span}
    {ts : List Lexeme} {ss : List Stmt} (stmts : Many Q ts ss) :
    Spells IsBlock Block.erase ((sym .leftBrace o :: ts ++ [sym .rightBrace c]).map (·.token))
      (.mk (o.merge c) ss) := by
  rw [List.map_append]
  exact (moves_many h stmts).block

theorem moves_stmt : Moves IsStmt IsStmt Stmt.erase := by
  intro ts s h
  refine IsStmt.induct (S := fun ts s => Spells IsStmt Stmt.erase (ts.map (·.token)) s)
    (B := fun ts b => Spells IsBlock Block.erase (ts.map (·.token)) b)
    (C := fun ts c => Spells IsConditional Conditional.erase (ts.map (·.token)) c)
    ?declare ?assign ?expr ?cond ?whileLoop ?forLoop ?ret ?throw ?tryCatch ?breakLoop ?continueLoop
    ?nested ?block ?alone ?other ?chain h
  case declare =>
    intro w i ts e c init
    rw [List.map_append]
    exact (moves_init .assign init).declare
  case assign =>
    intro ts t a us v c target value
    rw [List.map_append, List.map_append]
    exact (moves_expr 1 target).assign (moves_expr 1 value)
  case expr =>
    intro ts e c value
    rw [List.map_append]
    exact (moves_expr 1 value).expr
  case cond => exact fun branch => branch.cond
  case whileLoop =>
    intro w ts e us b cond body
    rw [List.map_append]
    exact (moves_expr 1 cond).whileLoop body
  case forLoop =>
    intro w i n ts e us b iterable body
    rw [List.map_append]
    exact (moves_expr 1 iterable).forLoop body
  case ret =>
    intro w ts e c value
    rw [List.map_append]
    exact (moves_optional (moves_expr 1) value).ret
  case throw =>
    intro w ts e c value
    rw [List.map_append]
    exact (moves_expr 1 value).throw
  case tryCatch =>
    intro w ts b k us i vs h body binding handler
    rw [List.map_append, List.map_append]
    exact body.tryCatch (moves_optional moves_binding binding) handler
  case breakLoop => exact fun w c => .breakLoop
  case continueLoop => exact fun w c => .continueLoop
  case nested => exact fun block => block.nested
  case block => exact fun stmts => moves_braced (fun _ _ h => h) stmts
  case alone =>
    intro w ts e us b cond body
    rw [List.map_append]
    exact (moves_expr 1 cond).alone body
  case other =>
    intro w ts e us b l vs o cond body other
    rw [List.map_append, List.map_append]
    exact (moves_expr 1 cond).other body other
  case chain =>
    intro w ts e us b l vs n cond body next
    rw [List.map_append, List.map_append]
    exact (moves_expr 1 cond).chain body next

theorem moves_block : Moves IsBlock IsBlock Block.erase := by
  intro ts b h
  cases h with
  | mk stmts => exact moves_braced moves_stmt stmts

/-! ## Declarations -/

theorem moves_typeName (s : Symbol) : Moves (Optional (After IsName s))
    (Optional (After IsName s)) (Option.map Ident.erase) :=
  moves_optional (moves_after moves_name s)

theorem moves_default : Moves IsDefault IsDefault id := by
  intro ts l h us hus
  cases h with
  | plain value =>
    simp only [List.map_cons, List.map_nil, map_token_eq_cons, map_token_eq_nil] at hus
    obtain ⟨s, _, rfl, rfl⟩ := hus
    exact ⟨_, .plain value, rfl⟩
  | negInt value =>
    simp only [List.map_cons, List.map_nil, map_token_eq_cons, map_token_eq_nil] at hus
    obtain ⟨m, _, rfl, s, _, rfl, rfl⟩ := hus
    exact ⟨_, .negInt (m := m) value, rfl⟩
  | negFloat value =>
    simp only [List.map_cons, List.map_nil, map_token_eq_cons, map_token_eq_nil] at hus
    obtain ⟨m, _, rfl, s, _, rfl, rfl⟩ := hus
    exact ⟨_, .negFloat (m := m) value, rfl⟩

theorem moves_param : Moves IsParam IsParam Param.erase := by
  intro ts p h
  cases h with
  | mk typeName default =>
    rw [List.map_append]
    have hdefault := moves_optional (moves_after moves_default .assign) default
    exact Spells.param (moves_typeName .colon typeName) hdefault

theorem moves_field : Moves IsField IsField FieldDecl.erase := by
  intro ts f h
  cases h with
  | instance_ init =>
    rw [List.map_append]
    exact (moves_init .assign init).instanceField
  | static_ init =>
    rw [List.map_append]
    exact (moves_init .assign init).staticField

theorem moves_body : Moves (fun ts b => ∃ stop, IsBody ts b stop)
    (fun ts b => ∃ stop, IsBody ts b stop) (Option.map Block.erase) := by
  rintro ts b ⟨stop, h⟩
  cases h with
  | none => exact .body_none
  | block inner => exact (moves_block inner).body_some

theorem moves_method : Moves IsMethod IsMethod MethodDecl.erase := by
  intro ts m h
  cases h with
  | @mk mods _ _ _ _ _ _ _ _ _ _ _ modifiers params returns body =>
    simp only [List.map_append]
    have hmods : ∀ t ∈ mods.map (·.token), Parse.isMethodModifier t :=
      List.forall_mem_map.2 modifiers
    exact Spells.method hmods (hasModifier_eq_any rfl _) (hasModifier_eq_any rfl _)
      (hasModifier_eq_any rfl _) (moves_commaList moves_param params)
      (moves_typeName .arrow returns) (moves_body ⟨_, body⟩)

theorem moves_member : Moves IsMember IsMember Member.erase := by
  intro ts m h
  cases h with
  | field field => exact (moves_field field).fieldMember
  | method method => exact (moves_method method).methodMember

theorem moves_generics : Moves IsGenerics IsGenerics (List.map Ident.erase) := by
  intro ts is h
  cases h with
  | mk names =>
    rw [List.map_append]
    exact (moves_commaList1 moves_name names).generics

theorem moves_typeDecl : Moves IsTypeDecl IsTypeDecl TypeDecl.erase := by
  intro ts d h
  cases h with
  | @mk mods _ _ _ _ _ _ _ _ _ _ _ modifiers generics bases members =>
    simp only [List.map_append]
    have hmods : ∀ t ∈ mods.map (·.token), Parse.isTypeModifier t :=
      List.forall_mem_map.2 modifiers
    have hbases := moves_optional (moves_after (moves_commaList1 moves_name) .colon) bases
    exact Spells.typeDecl hmods (hasModifier_eq_any rfl _) (hasModifier_eq_any rfl _) rfl rfl
      (moves_optional moves_generics generics) hbases (moves_many moves_member members)

theorem moves_file : Moves IsFile IsFile (List.map TypeDecl.erase) :=
  moves_many moves_typeDecl

/-! ## Keys -/

section

variable {ts : List Token} (h : ∀ t ∈ ts, ∀ s, t ≠ .unterminated s)

include h

theorem Token.runOut_of_closed : Token.runOut ts := by
  induction ts with
  | nil => rfl
  | cons t ts ih =>
    rw [runOut_cons (h t List.mem_cons_self)]
    exact ih fun u hu => h u (List.mem_cons_of_mem t hu)

theorem reread_of_closed : reread ts = ts := by
  induction ts with
  | nil => rfl
  | cons t ts ih =>
    rw [reread_cons (h t List.mem_cons_self), ih fun u hu => h u (List.mem_cons_of_mem t hu)]

end

/-- Every string has its closing quote where the lexer has reported nothing. -/
theorem Grammar.Clean.closed {ts : List Lexeme} (h : Clean ts) :
    ∀ t ∈ ts.map (·.token), ∀ s, t ≠ .unterminated s := by
  rintro _ ht s rfl
  obtain ⟨u, hu, htoken⟩ := List.mem_map.1 ht
  have hread := h u hu
  rw [htoken] at hread
  cases hread

/-- A key is read as the tokens of its source, if all strings there are closed. -/
theorem ofSource_canonicalKey {source : String}
    (h : ∀ t ∈ Token.ofSource source, ∀ s, t ≠ .unterminated s) :
    Token.ofSource (canonicalKey source) = Token.ofSource source := by
  have hlexemes : (Lexer.lexemes 0 (canonicalKey source).toList).map (·.token) =
      Token.ofSource source := by
    rw [toList_canonicalKey, map_token_joined (settled_ofSource (Token.runOut_of_closed h)),
      reread_of_closed h]
  rw [Token.ofSource, Lexeme.ofSource, Lexeme.scan, List.filter_eq_self.2, hlexemes]
  intro t ht
  have hmem : t.token ∈ Token.ofSource source := hlexemes ▸ List.mem_map_of_mem ht
  obtain ⟨u, hu, htoken⟩ := List.mem_map.1 hmem
  rw [← htoken]
  exact (List.mem_filter.1 hu).2

/-- The key of a source without syntax errors is as good a source: it has the same tokens, no syntax
errors, the same declarations at other places, and itself for a key. -/
theorem canonicalKey_preserves (source : String) (hparse : (Parsed.ofSource source).errors = []) :
    Token.ofSource (canonicalKey source) = Token.ofSource source ∧
      (Parsed.ofSource (canonicalKey source)).errors = [] ∧
      (Parsed.ofSource (canonicalKey source)).types.map TypeDecl.erase =
        (Parsed.ofSource source).types.map TypeDecl.erase ∧
      canonicalKey (canonicalKey source) = canonicalKey source := by
  obtain ⟨hclean, hnone⟩ := Parsed.ofLexemes_errors_eq_nil_iff.1 hparse
  have htokens := ofSource_canonicalKey hclean.closed
  have hfile := Parse.isFile_of_no_failures _ _ (Nat.lt_succ_self _) hnone
  obtain ⟨types, hback, herase⟩ := moves_file hfile _ htokens
  have hread := Parsed.ofLexemes_of_isFile hback
  refine ⟨htokens, congrArg Parsed.errors hread, ?_, ?_⟩
  · exact (congrArg (List.map TypeDecl.erase ∘ Parsed.types) hread).trans herase
  · rw [← String.toList_inj, toList_canonicalKey, htokens, ← toList_canonicalKey]

/-- Comments between tokens that would be one without them, and quotes in a verbatim string. -/
theorem canonicalKey_preserves_touching :
    let source := "type A\x7blet x=1/**/.floor()-/*-*/-@\"a\"\"b\";// end
      \x7d"
    (Parsed.ofSource source).errors = [] ∧
      Token.ofSource (canonicalKey source) = Token.ofSource source ∧
      (Parsed.ofSource (canonicalKey source)).errors = [] ∧
      (Parsed.ofSource (canonicalKey source)).types.map TypeDecl.erase =
        (Parsed.ofSource source).types.map TypeDecl.erase ∧
      canonicalKey (canonicalKey source) = canonicalKey source := by
  intro source
  have hparse : (Parsed.ofSource source).errors = [] := by decide +kernel
  exact ⟨hparse, canonicalKey_preserves source hparse⟩

end GenLang
