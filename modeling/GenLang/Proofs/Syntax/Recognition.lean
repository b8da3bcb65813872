import GenLang.Syntax.Source
import GenLang.Proofs.Syntax.Completeness
import GenLang.Proofs.Syntax.Reach

/-!
# Sources without syntax errors

A source is read without an error exactly if its tokens are declarations of the grammar, and then
the tree is the one of the grammar. A failure at a token the lexer has reported is left out of the
errors; it is not lost, for a reader only blames tokens it was given.
-/

namespace GenLang

open Text Grammar

namespace Parse

/-! ## Tokens that are blamed -/

/-- A failure tells of tokens that were given: of one that does not fit, of their end, or of a row
of them that makes no value. -/
inductive Blamed (ts : List Lexeme) : Failure → Prop
  | token {t} (h : t ∈ ts) : Blamed ts (.unexpected (some t))
  | finish : Blamed ts (.unexpected none)
  | row {t u ws} (message : String) (h : CleanRow ts t u ws) :
      Blamed ts (.invalid message (t.span.merge u.span))

theorem Blamed.mono {us ts : List Lexeme} {f : Failure} (h : Blamed us f) (hsub : us <:+: ts) :
    Blamed ts f := by
  cases h with
  | token h => exact .token (hsub.subset h)
  | finish => exact .finish
  | row message h => exact .row message (h.mono hsub)

theorem suffix_of_typeDecl {n : Nat} {ts rest : List Lexeme} {d : TypeDecl}
    (h : typeDecl n ts = .ok (d, rest)) : rest <:+ ts := by
  obtain ⟨mods, us, rest', rfl, -, -, hends⟩ := ends_typeDecl n ts
  rw [h] at hends
  cases hends
  exact (List.suffix_append us rest).trans (List.suffix_append mods _)

theorem blamed_typeDecl {n : Nat} {ts : List Lexeme} {f : Failure}
    (h : typeDecl n ts = .error f) : Blamed ts f := by
  obtain ⟨mods, us, rest, rfl, -, -, hends⟩ := ends_typeDecl n ts
  rw [h] at hends
  cases hends with
  | unexpected =>
    cases rest with
    | nil => exact .finish
    | cons t rest => exact .token (by simp)
  | invalid message hrow =>
    refine .row message (hrow.mono ?_)
    rw [← List.append_assoc]
    exact (List.prefix_append _ _).isInfix

/-! ## Declarations and their failures -/

theorem blamed_typeDecls (n : Nat) (ts : List Lexeme) {f : Failure} (h : f ∈ (typeDecls n ts).2) :
    Blamed ts f := by
  fun_induction typeDecls n ts with
  | case1 => cases h
  | case2 => cases h
  | case3 n u ts d rest hd ds fs hrest ih =>
    rw [hrest] at ih
    exact (ih h).mono (suffix_of_typeDecl hd).isInfix
  | case4 n u ts f' hd ds fs hrest ih =>
    rw [hrest] at ih
    rcases List.mem_cons.1 h with rfl | h
    · exact blamed_typeDecl hd
    · exact (ih h).mono ((List.dropWhile_suffix _).trans (List.suffix_cons u ts)).isInfix

theorem isFile_of_no_failures (n : Nat) (ts : List Lexeme) (hn : ts.length < n)
    (h : (typeDecls n ts).2 = []) : IsFile ts (typeDecls n ts).1 := by
  fun_induction typeDecls n ts with
  | case1 => omega
  | case2 => exact .nil
  | case3 n u ts d rest hd ds fs hrest ih =>
    obtain ⟨us, hus, hdecl⟩ := sound_typeDecl _ hd
    have hpos := length_typeDecl_pos hdecl
    have hlen := congrArg List.length hus
    rw [List.length_append] at hlen
    rw [hrest] at ih
    rw [hus]
    exact .cons hdecl (ih (by omega) h)
  | case4 => cases h

/-- Declarations are read the same in front of other tokens. -/
theorem typeDecls_append {n : Nat} {ts us : List Lexeme} {ds : List TypeDecl} (h : IsFile ts ds)
    (hn : (ts ++ us).length < n) : ∃ m, us.length < m ∧
      typeDecls n (ts ++ us) = (ds ++ (typeDecls m us).1, (typeDecls m us).2) := by
  induction h generalizing n with
  | nil => exact ⟨n, hn, rfl⟩
  | @cons ts vs d ds first others ih =>
    have hpos := length_typeDecl_pos first
    rw [List.append_assoc, List.length_append] at hn
    obtain ⟨n, rfl⟩ : ∃ m, n = m + 1 := ⟨n - 1, by omega⟩
    obtain ⟨t, ts, rfl⟩ := List.exists_cons_of_length_pos hpos
    have hread := complete_typeDecl n first (by omega) (clear_false (vs ++ us))
    obtain ⟨m, hm, hothers⟩ := ih (n := n) (by omega)
    refine ⟨m, hm, ?_⟩
    rw [List.append_assoc, List.cons_append, typeDecls, ← List.cons_append, hread]
    dsimp only
    rw [hothers]
    rfl

theorem typeDecls_of_isFile {n : Nat} {ts : List Lexeme} {ds : List TypeDecl} (h : IsFile ts ds)
    (hn : ts.length < n) : typeDecls n ts = (ds, []) := by
  rw [← List.append_nil ts] at hn ⊢
  obtain ⟨m, hm, hread⟩ := typeDecls_append h hn
  rw [List.length_nil] at hm
  obtain ⟨m, rfl⟩ : ∃ k, m = k + 1 := ⟨m - 1, by omega⟩
  rw [hread]
  simp [typeDecls]

end Parse

/-! ## Tokens of a phrase -/

namespace Grammar

/-- No token is one the lexer has reported. -/
def Clean (ts : List Lexeme) : Prop :=
  ∀ t ∈ ts, t.token.isLexicalError = false

@[simp] theorem clean_nil : Clean [] := by
  simp [Clean]

@[simp] theorem clean_cons {t : Lexeme} {ts : List Lexeme} :
    Clean (t :: ts) ↔ t.token.isLexicalError = false ∧ Clean ts := by
  simp [Clean]

@[simp] theorem clean_append {ts us : List Lexeme} : Clean (ts ++ us) ↔ Clean ts ∧ Clean us := by
  simp [Clean, or_imp, forall_and]

section

variable {α : Type} {P : Phrase α} (hP : ∀ ⦃ts a⦄, P ts a → Clean ts)

include hP

theorem clean_optional {ts : List Lexeme} {o : Option α} (h : Optional P ts o) : Clean ts := by
  cases h with
  | none => exact clean_nil
  | some item => exact hP item

theorem clean_many {ts : List Lexeme} {as : List α} (h : Many P ts as) : Clean ts := by
  induction h with
  | nil => exact clean_nil
  | cons first _ ih => exact clean_append.2 ⟨hP first, ih⟩

theorem clean_commaList {ts : List Lexeme} {as : List α} (h : CommaList P ts as) : Clean ts := by
  induction h with
  | nil => exact clean_nil
  | one item => exact hP item
  | cons first _ ih => exact clean_append.2 ⟨hP first, clean_cons.2 ⟨rfl, ih⟩⟩

theorem clean_commaList1 {ts : List Lexeme} {as : List α} (h : CommaList1 P ts as) :
    Clean ts := by
  induction h with
  | one item => exact hP item
  | cons first _ ih => exact clean_append.2 ⟨hP first, clean_cons.2 ⟨rfl, ih⟩⟩

theorem clean_after {s : Symbol} {ts : List Lexeme} {a : α} (h : After P s ts a) : Clean ts := by
  cases h with
  | mk item => exact clean_cons.2 ⟨rfl, hP item⟩

end

theorem clean_name {ts : List Lexeme} {i : Ident} (h : IsName ts i) : Clean ts := by
  cases h
  exact clean_cons.2 ⟨rfl, clean_nil⟩

theorem clean_literal {t : Lexeme} {l : Literal} (h : LiteralOf t.token l) : Clean [t] := by
  refine clean_cons.2 ⟨?_, clean_nil⟩
  generalize t.token = token at h
  cases h <;> rfl

theorem clean_expr {p : Nat} {ts : List Lexeme} {e : Expr} (h : IsExpr p ts e) : Clean ts := by
  induction h using IsExpr.induct with
  | lit value => exact clean_literal value
  | name | self => exact clean_cons.2 ⟨rfl, clean_nil⟩
  | list _ ih | new _ ih =>
    have hitems := clean_commaList (fun _ _ h => h.2) ih
    simpa [Token.isLexicalError] using hitems
  | call _ _ ih ih' =>
    have hargs := clean_commaList (fun _ _ h => h.2) ih'
    simpa [Token.isLexicalError] using ⟨ih, hargs⟩
  | tighter _ _ ih => exact ih
  | paren _ ih | not _ ih | neg _ ih | await _ ih | member _ ih =>
    simpa [Token.isLexicalError] using ih
  | index _ _ ih ih' | binary _ _ ih ih' => simpa [Token.isLexicalError] using ⟨ih, ih'⟩

theorem clean_init {s : Symbol} {ts : List Lexeme} {e : Option Expr}
    (h : Optional (After (IsExpr 1) s) ts e) : Clean ts :=
  clean_optional (fun _ _ h => clean_after (fun _ _ h => clean_expr h) h) h

theorem clean_binding {ts : List Lexeme} {i : Ident} (h : IsBinding ts i) : Clean ts := by
  cases h
  simp [Token.isLexicalError]

theorem clean_stmt {ts : List Lexeme} {s : Stmt} (h : IsStmt ts s) : Clean ts := by
  refine IsStmt.induct (S := fun ts _ => Clean ts) (B := fun ts _ => Clean ts)
    (C := fun ts _ => Clean ts) ?declare ?assign ?expr ?cond ?whileLoop ?forLoop ?ret ?throw
    ?tryCatch ?breakLoop ?continueLoop ?nested ?block ?alone ?other ?chain h
  -- Keywords, names and signs are no errors, so only the parts are left to be looked at.
  case declare =>
    intro w i ts e c init
    simpa [Token.isLexicalError] using clean_init init
  case assign =>
    intro ts t a us v c target value
    simpa [Token.isLexicalError] using ⟨clean_expr target, clean_expr value⟩
  case expr =>
    intro ts e c value
    simpa [Token.isLexicalError] using clean_expr value
  case cond =>
    exact id
  case whileLoop =>
    intro w ts e us b cond body
    simpa [Token.isLexicalError] using ⟨clean_expr cond, body⟩
  case forLoop =>
    intro w i n ts e us b iterable body
    simpa [Token.isLexicalError] using ⟨clean_expr iterable, body⟩
  case ret =>
    intro w ts e c value
    simpa [Token.isLexicalError] using clean_optional (fun _ _ h => clean_expr h) value
  case throw =>
    intro w ts e c value
    simpa [Token.isLexicalError] using clean_expr value
  case tryCatch =>
    intro w ts b k us i vs h body binding handler
    have hbinding := clean_optional (fun _ _ h => clean_binding h) binding
    simpa [Token.isLexicalError] using ⟨body, hbinding, handler⟩
  case breakLoop =>
    intro w c
    simp [Token.isLexicalError]
  case continueLoop =>
    intro w c
    simp [Token.isLexicalError]
  case nested =>
    exact id
  case block =>
    intro o ts ss c stmts
    simpa [Token.isLexicalError] using clean_many (fun _ _ h => h) stmts
  case alone =>
    intro w ts e us b cond body
    simpa [Token.isLexicalError] using ⟨clean_expr cond, body⟩
  case other =>
    intro w ts e us b l vs o cond body other
    simpa [Token.isLexicalError] using ⟨clean_expr cond, body, other⟩
  case chain =>
    intro w ts e us b l vs n cond body next
    simpa [Token.isLexicalError] using ⟨clean_expr cond, body, next⟩

theorem clean_typeName {s : Symbol} {ts : List Lexeme} {i : Option Ident}
    (h : Optional (After IsName s) ts i) : Clean ts :=
  clean_optional (fun _ _ h => clean_after (fun _ _ h => clean_name h) h) h

theorem clean_names {ts : List Lexeme} {is : List Ident} (h : CommaList1 IsName ts is) :
    Clean ts :=
  clean_commaList1 (fun _ _ h => clean_name h) h

theorem clean_default {ts : List Lexeme} {l : Literal} (h : IsDefault ts l) : Clean ts := by
  cases h with
  | plain value => exact clean_literal value
  | negInt value | negFloat value => exact clean_cons.2 ⟨rfl, clean_literal value⟩

theorem clean_param {ts : List Lexeme} {p : Param} (h : IsParam ts p) : Clean ts := by
  cases h with
  | mk typeName default =>
    have hdefault := clean_optional (fun _ _ h => clean_after (fun _ _ h => clean_default h) h)
      default
    simpa [Token.isLexicalError] using ⟨clean_typeName typeName, hdefault⟩

/-- Modifiers are keywords. -/
theorem clean_modifiers {f : Token → Bool} (hf : ∀ t, f t → t.isLexicalError = false)
    {ts : List Lexeme} (h : ∀ t ∈ ts, f t.token) : Clean ts :=
  fun t ht => hf _ (h t ht)

theorem clean_body {ts : List Lexeme} {b : Option Block} {stop : Span} (h : IsBody ts b stop) :
    Clean ts := by
  cases h with
  | none => exact clean_cons.2 ⟨rfl, clean_nil⟩
  | block inner => exact clean_stmt (.nested inner)

theorem clean_member {ts : List Lexeme} {m : Member} (h : IsMember ts m) : Clean ts := by
  cases h with
  | field field =>
    cases field with
    | instance_ init | static_ init => simpa [Token.isLexicalError] using clean_init init
  | method method =>
    cases method with
    | mk modifiers params returns body =>
      have hmods := clean_modifiers (fun t ht => by cases t <;> first | rfl | cases ht) modifiers
      have hparams := clean_commaList (fun _ _ h => clean_param h) params
      simpa [Token.isLexicalError] using
        ⟨hmods, hparams, clean_typeName returns, clean_body body⟩

theorem clean_generics {ts : List Lexeme} {is : List Ident} (h : IsGenerics ts is) :
    Clean ts := by
  cases h with
  | mk names => simpa [Token.isLexicalError] using clean_names names

theorem clean_typeDecl {ts : List Lexeme} {d : TypeDecl} (h : IsTypeDecl ts d) : Clean ts := by
  cases h with
  | mk modifiers generics bases members =>
    have hmods := clean_modifiers (fun t ht => by cases t <;> first | rfl | cases ht) modifiers
    have hgenerics := clean_optional (fun _ _ h => clean_generics h) generics
    have hbases := clean_optional (fun _ _ h => clean_after (fun _ _ h => clean_names h) h) bases
    have hmembers := clean_many (fun _ _ h => clean_member h) members
    simpa [Token.isLexicalError] using ⟨hmods, hgenerics, hbases, hmembers⟩

theorem clean_file {ts : List Lexeme} {ds : List TypeDecl} (h : IsFile ts ds) : Clean ts :=
  clean_many (fun _ _ h => clean_typeDecl h) h

end Grammar

namespace Parsed

open Parse

theorem lexicalErrors_eq_nil_iff {ts : List Lexeme} :
    ts.filterMap lexicalError? = [] ↔ Clean ts := by
  rw [List.filterMap_eq_nil_iff]
  refine forall₂_congr fun t _ => ?_
  obtain ⟨token, span⟩ := t
  cases token <;> simp [lexicalError?, Token.isLexicalError]

theorem ofLexemes_errors_eq_nil_iff {ts : List Lexeme} :
    (ofLexemes ts).errors = [] ↔ Clean ts ∧ (typeDecls (ts.length + 1) ts).2 = [] := by
  have hsort (es : List SyntaxError) (le) : es.mergeSort le = [] ↔ es = [] := by
    rw [← List.length_eq_zero_iff, List.length_mergeSort, List.length_eq_zero_iff]
  simp only [ofLexemes, hsort, List.append_eq_nil_iff, lexicalErrors_eq_nil_iff]
  refine and_congr_right fun hclean => ⟨fun h => ?_, fun h => by rw [h]; rfl⟩
  -- A failure that gives no error blames a token the lexer reported, and there is none.
  rw [List.filterMap_eq_nil_iff] at h
  rw [List.eq_nil_iff_forall_not_mem]
  intro f hf
  have hnone := h f hf
  match f with
  | .invalid _ _ | .unexpected none => cases hnone
  | .unexpected (some t) =>
    cases blamed_typeDecls _ _ hf with
    | token ht => simp [failureError?, hclean t ht] at hnone

theorem ofLexemes_of_isFile {ts : List Lexeme} {ds : List TypeDecl} (h : IsFile ts ds) :
    ofLexemes ts = ⟨ds, []⟩ := by
  have hread := typeDecls_of_isFile h (Nat.lt_succ_self ts.length)
  have hlexical := lexicalErrors_eq_nil_iff.2 (clean_file h)
  simp only [ofLexemes, hread, hlexical, List.filterMap_nil, List.append_nil, List.mergeSort_nil]

/-- A source has no syntax error exactly if its tokens are declarations of the grammar, and those
are then what is read. -/
theorem recognizes_grammar (source : String) :
    ((ofSource source).errors = [] ↔ ∃ types, IsFile (Lexeme.ofSource source) types) ∧
      ∀ types, IsFile (Lexeme.ofSource source) types → (ofSource source).types = types := by
  refine ⟨⟨fun h => ?_, ?_⟩, fun types h => ?_⟩
  · obtain ⟨-, hnone⟩ := ofLexemes_errors_eq_nil_iff.1 h
    exact ⟨_, isFile_of_no_failures _ _ (Nat.lt_succ_self _) hnone⟩
  · rintro ⟨types, h⟩
    rw [ofSource, ofLexemes_of_isFile h]
  · rw [ofSource, ofLexemes_of_isFile h]

end Parsed

end GenLang
