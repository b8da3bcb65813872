import GenLang.Proofs.Syntax.Recognition
import GenLang.Proofs.Syntax.Printing.Declaration

/-!
# Formatting keeps the program

What the lexer takes for names is spelled as a name, so that everything that is read from a source
without floats is printed so that it is read back.
-/

namespace GenLang

open Text Lexer Grammar Parse Piece

/-! ## Names of a source -/

theorem number_ne_word (rest : List Char) : (number rest).1 ≠ .word := by
  unfold number
  dsimp only
  split
  · split <;> nofun
  · nofun

theorem ite_ne_word {p : Bool} {r u : Rule} (hr : r ≠ .word) (hu : u ≠ .word) :
    (if p then r else u) ≠ .word := by
  split
  · exact hr
  · exact hu

theorem measure_eq_word {c : Char} {rest : List Char} {n : Nat}
    (h : Lexer.measure c rest = (.word, n)) :
    isLetter c ∧ n = (rest.takeWhile isWordChar).length := by
  unfold Lexer.measure at h
  split at h
  · exact absurd (congrArg Prod.fst h) (number_ne_word rest)
  split at h
  · next hc => exact ⟨hc, (Prod.mk.inj h).2.symm⟩
  split at h
  · exact absurd (Prod.mk.inj h).1 (ite_ne_word nofun nofun)
  split at h
  · exact absurd (Prod.mk.inj h).1 (ite_ne_word nofun nofun)
  · cases h
  · exact absurd (Prod.mk.inj h).1 (ite_ne_word nofun nofun)
  · split at h <;> cases h

/-- Only a word that is no keyword makes a name. -/
theorem token_eq_ident {rule : Rule} {text name : String} (h : rule.token text = .ident name) :
    rule = .word ∧ Keyword.ofText? text = none ∧ text = name := by
  cases rule with
  | word =>
    rw [Rule.token] at h
    split at h
    · cases h
    · next hnone => exact ⟨rfl, hnone, Token.ident.inj h⟩
  | _ => cases h

theorem isWord_of_mem_lexemes {start : Nat} {cs : List Char} {t : Lexeme} {name : String}
    (ht : t ∈ lexemes start cs) (hname : t.token = .ident name) : IsWord name := by
  fun_induction lexemes start cs with
  | case1 => cases ht
  | case2 start c rest _ ih => exact ih ht
  | case3 start c rest _ rule n hmeasure taken stop ih =>
    rcases List.mem_cons.1 ht with rfl | ht
    · obtain ⟨rfl, hnone, rfl⟩ := token_eq_ident hname
      obtain ⟨hc, rfl⟩ := measure_eq_word hmeasure
      refine ⟨c, _, String.toList_ofList, hc, fun d hd => ?_, hnone⟩
      rw [← List.prefix_iff_eq_take.1 (List.takeWhile_prefix isWordChar)] at hd
      exact List.mem_takeWhile_imp hd
    · exact ih ht

theorem plain_ofSource {source : String}
    (hfloat : ∀ t ∈ Lexeme.ofSource source, ∀ x, t.token ≠ .float x) :
    Plain (Lexeme.ofSource source) := by
  intro t ht
  refine ⟨fun name hname => ?_, hfloat t ht⟩
  exact isWord_of_mem_lexemes (List.mem_filter.1 ht).1 hname

/-! ## Reading a layout -/

/-- Among the tokens of a layout there is no comment, since none is spelled out. -/
theorem isComment_eq_false_of_spelled {t : Token} (h : Spelled t) : t.isComment = false := by
  cases h <;> rfl

theorem spelled_of_mem_tokens {p : Piece} {ps : List Piece} (h : Runs p ps) :
    ∀ t ∈ tokens ps, Spelled t := by
  induction ps generalizing p with
  | nil => exact fun _ ht => absurd ht List.not_mem_nil
  | cons q qs ih =>
    obtain ⟨hq, -, hqs⟩ := h
    cases q with
    | blank s => exact ih hqs
    | token u =>
      intro t ht
      rcases List.mem_cons.1 ht with rfl | ht
      · exact hq
      · exact ih hqs t ht

/-- The text of a layout has the tokens of the layout. -/
theorem ofSource_join {p : Piece} {ps : List Piece} (h : Runs p ps) :
    (Lexeme.ofSource (String.join (ps.map Piece.text))).map (·.token) = tokens ps := by
  have htext : (String.join (ps.map Piece.text)).toList = chars ps := by
    rw [String.toList_join, List.flatMap_map, chars]
  have hscan := lexemes_chars h 0
  rw [Lexeme.ofSource, Lexeme.scan, htext, List.filter_eq_self.2, hscan]
  intro t ht
  have hmem : t.token ∈ tokens ps := hscan ▸ List.mem_map_of_mem ht
  rw [isComment_eq_false_of_spelled (spelled_of_mem_tokens h _ hmem)]
  rfl

/-- A source without syntax errors and without floats has a canonical text. That has no syntax
errors either, and holds the same declarations at other places. -/
theorem format_preserves (source : String) (hparse : (Parsed.ofSource source).errors = [])
    (hfloat : ∀ t ∈ Lexeme.ofSource source, ∀ x, t.token ≠ .float x) :
    ∃ text, format? source = some text ∧ (Parsed.ofSource text).errors = [] ∧
      (Parsed.ofSource text).types.map TypeDecl.erase =
        (Parsed.ofSource source).types.map TypeDecl.erase := by
  obtain ⟨-, hnone⟩ := Parsed.ofLexemes_errors_eq_nil_iff.1 hparse
  have hfile := isFile_of_no_failures _ _ (Nat.lt_succ_self _) hnone
  have hprint := printable_file hfile (plain_ofSource hfloat)
  have hend : Runs newline [] := trivial
  have hruns := lined_typeDecls hprint hend
  rw [List.append_nil] at hruns
  obtain ⟨types, hback, herase⟩ := spells_file hprint _ (ofSource_join hruns)
  have hread := Parsed.ofLexemes_of_isFile hback
  refine ⟨formatTypes (Parsed.ofSource source).types, ?_, ?_, ?_⟩
  · rw [format?, Parsed.isOk, hparse]
    rfl
  · exact congrArg Parsed.errors hread
  · exact (congrArg (List.map TypeDecl.erase ∘ Parsed.types) hread).trans herase

/-- Modifiers out of order, a trailing comma and needless parentheses. -/
theorem format_preserves_counter :
    let source := "static abstract type  Counter : Base,Other {
      async static fn step(by: Int = -1,) { if (by > 0) {} else if ((by)) { return ((1+2))*3; } } }"
    ∃ text, format? source = some text ∧ (Parsed.ofSource text).errors = [] ∧
      (Parsed.ofSource text).types.map TypeDecl.erase =
        (Parsed.ofSource source).types.map TypeDecl.erase := by
  refine format_preserves _ (by decide +kernel) fun t ht x hx => ?_
  -- A float is the float of its own text.
  have hnone : ∀ t ∈ Lexeme.ofSource "static abstract type  Counter : Base,Other {
      async static fn step(by: Int = -1,) { if (by > 0) {} else if ((by)) { return ((1+2))*3; } } }",
        t.token ≠ .float t.token.text := by
    decide +kernel
  exact hnone t ht (by rw [hx]; rfl)

end GenLang
