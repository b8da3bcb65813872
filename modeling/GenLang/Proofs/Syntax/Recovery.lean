import GenLang.Proofs.Syntax.Recognition

/-!
# Broken declarations

What goes wrong in one declaration costs no other. Between declarations that are well formed there
may be tokens that are none; then the declarations on both sides are read, whatever the tokens
between them are, and one error tells of those.

The declaration that is tried there may take all of these tokens and look at the next declaration
before it fails. It cannot take more: it would be modifiers only up to there, and these belong to
the next declaration then.
-/

namespace GenLang

open Text Grammar

theorem Grammar.IsTypeDecl.modified {mods ts : List Lexeme} {d : TypeDecl} (h : IsTypeDecl ts d)
    (hmods : ∀ m ∈ mods, Parse.isTypeModifier m.token) : ∃ d', IsTypeDecl (mods ++ ts) d' := by
  cases h with
  | @mk mods' k w i gs g bs b o vs ms c modifiers generics bases members =>
    have hall : ∀ m ∈ mods ++ mods', Parse.isTypeModifier m.token := by
      simpa [or_imp, forall_and] using ⟨hmods, modifiers⟩
    have hdecl := IsTypeDecl.mk (k := k) (w := w) (i := i) (o := o) (c := c) hall generics bases
      members
    exact ⟨_, by simpa using hdecl⟩

/-- Tokens before declarations that are not part of one: no token but the first is a word at which
reading is taken up again, and what comes next begins with such a word. -/
structure Grammar.Broken (junk next : List Lexeme) : Prop where
  nonempty : junk ≠ []
  within : ∀ t ∈ junk.tail, t.token.startsType = false
  resumes : ∀ t ∈ next.head?, t.token.startsType
  notDecl : ∀ ts d, ts <+: junk ++ next → ¬ IsTypeDecl ts d

/-- The places an error about tokens can have: in them, at the token that is next, or where they
end if there is none. -/
inductive Grammar.Blames (junk next : List Lexeme) : Span → Prop
  | within {t u} (first : t ∈ junk) (last : u ∈ junk) : Blames junk next (t.span.merge u.span)
  | next {t} (h : t ∈ next.head?) : Blames junk next t.span
  | finish {t} (none : next = []) (h : t ∈ junk.getLast?) :
      Blames junk next ⟨t.span.stop, t.span.stop⟩

namespace Parse

variable {junk next : List Lexeme} {ds : List TypeDecl}

/-- Tokens before a word that starts a type are modifiers, if that word is taken too. -/
theorem subset_of_reaches {mods us vs : List Lexeme} {t : Lexeme}
    (h : mods ++ us = junk ++ t :: vs) (hus : ∀ u ∈ us.tail, u.token.startsType = false)
    (ht : t.token.startsType) : junk ⊆ mods := by
  rcases List.append_eq_append_iff.1 h with ⟨ws, rfl, hws⟩ | ⟨ws, rfl, hws⟩
  · cases ws with
    | nil => simp
    | cons u ws =>
      have hnot := hus t (by simp [hws])
      rw [hnot] at ht
      cases ht
  · exact List.subset_append_left junk ws

/-- A declaration that is tried at tokens that are none fails in them or at the next token. -/
theorem typeDecl_broken (h : Broken junk next) (hnext : IsFile next ds) (n : Nat) :
    ∃ f us rest, typeDecl n (junk ++ next) = .error f ∧ junk = us ++ rest ∧
      Ends us (rest ++ next) (.error f : Except Failure (TypeDecl × List Lexeme)) := by
  obtain ⟨mods, us, rest, hts, hmods, hus, hends⟩ := ends_typeDecl n (junk ++ next)
  rcases hr : typeDecl n (junk ++ next) with f | ⟨d, rest'⟩
  · rw [hr] at hends
    refine ⟨f, ?_⟩
    rw [← List.append_assoc] at hts
    rcases List.append_eq_append_iff.1 hts with ⟨vs, hvs, hrest⟩ | ⟨vs, hvs, hrest⟩
    · cases vs with
      | nil =>
        rw [List.append_nil] at hvs
        exact ⟨junk, [], rfl, by simp, by simpa [hvs, hrest] using hends⟩
      | cons t vs =>
        -- Had it taken the next token too, these tokens would be modifiers of what comes next.
        have ht := h.resumes t (by simp [hrest])
        have hsub := subset_of_reaches hvs hus ht
        cases hnext with
        | nil => cases hrest
        | @cons ts others d ds first =>
          obtain ⟨d', hd'⟩ := first.modified fun t ht => hmods t (hsub ht)
          exact absurd hd' (h.notDecl _ d' (by simp))
    · exact ⟨mods ++ us, vs, rfl, hvs, by rwa [← hrest]⟩
  · obtain ⟨vs, hvs, hdecl⟩ := sound_typeDecl n hr
    exact absurd hdecl (h.notDecl vs d ⟨rest', hvs.symm⟩)

theorem typeDecls_broken (h : Broken junk next) (hnext : IsFile next ds) {n : Nat}
    (hn : (junk ++ next).length < n) : ∃ f us rest, typeDecls n (junk ++ next) = (ds, [f]) ∧
      junk = us ++ rest ∧
        Ends us (rest ++ next) (.error f : Except Failure (TypeDecl × List Lexeme)) := by
  obtain ⟨n, rfl⟩ : ∃ m, n = m + 1 := ⟨n - 1, by omega⟩
  obtain ⟨f, us, rest, hread, hjunk, hends⟩ := typeDecl_broken h hnext (n + 1)
  refine ⟨f, us, rest, ?_, hjunk, hends⟩
  obtain ⟨t, junk', rfl⟩ := List.exists_cons_of_ne_nil h.nonempty
  have hskip : (junk' ++ next).dropWhile (!·.token.startsType) = next := by
    rw [List.dropWhile_append_of_pos (by simpa using h.within)]
    cases next with
    | nil => rfl
    | cons u next => simp [h.resumes u rfl]
  rw [List.length_append, List.length_cons] at hn
  rw [List.cons_append, typeDecls, ← List.cons_append, hread]
  dsimp only
  rw [hskip, typeDecls_of_isFile hnext (by omega)]

/-- Where reading fails, no declaration begins. -/
theorem not_isTypeDecl_of_fails {n : Nat} {ts : List Lexeme}
    (h : (typeDecl (n + 1) ts).isOk = false) (hn : ts.length ≤ n) {us : List Lexeme}
    {d : TypeDecl} (hus : us <+: ts) : ¬ IsTypeDecl us d := by
  intro hdecl
  obtain ⟨rest, rfl⟩ := hus
  rw [List.length_append] at hn
  have hread := complete_typeDecl n hdecl (by omega) (clear_false rest)
  rw [hread] at h
  cases h

end Parse

namespace Parsed

open Parse

variable {before junk next : List Lexeme} {ds es : List TypeDecl}

/-- A failure at no token the lexer has reported gives an error at its place. -/
theorem failureError?_of_ends {us rest : List Lexeme} {f : Failure} {t : Lexeme} {finish : Nat}
    (h : Ends us (rest ++ next) (.error f : Except Failure (TypeDecl × List Lexeme)))
    (hclean : Clean (rest ++ next)) (ht : t ∈ (us ++ rest).getLast?)
    (hfinish : next = [] → finish = t.span.stop) :
    ∃ e, failureError? finish f = some e ∧ Blames (us ++ rest) next e.span := by
  cases h with
  | @invalid first last _ message h =>
    have hfirst : first ∈ us := h.row.subset (List.mem_of_head? h.first)
    have hlast : last ∈ us := h.row.subset (List.mem_of_getLast? h.last)
    exact ⟨_, rfl, .within (List.mem_append_left rest hfirst) (List.mem_append_left rest hlast)⟩
  -- The reader stopped at a lexeme of this type, at the first one of the next, or at the end.
  | unexpected =>
    cases rest with
    | cons u rest =>
      have hread : u.token.isLexicalError = false := hclean u List.mem_cons_self
      refine ⟨⟨.unexpectedToken u.token.render, u.span, none, none⟩, ?_, ?_⟩
      · simp [failureError?, hread]
      · rw [← u.span.merge_self]
        exact .within (by simp) (by simp)
    | nil =>
      cases next with
      | cons u next =>
        have hread : u.token.isLexicalError = false := hclean u List.mem_cons_self
        refine ⟨⟨.unexpectedToken u.token.render, u.span, none, none⟩, ?_, .next rfl⟩
        simp [failureError?, hread]
      | nil =>
        refine ⟨_, rfl, ?_⟩
        rw [hfinish rfl]
        exact .finish rfl ht

/-- Tokens that are not part of a declaration cost none of the declarations around them. If the
lexer has no complaint about these tokens, one error tells of them, at a place that is theirs. -/
theorem recovers_ofSource {source : String}
    (hsource : Lexeme.ofSource source = before ++ (junk ++ next)) (hbefore : IsFile before ds)
    (hjunk : Broken junk next) (hnext : IsFile next es) :
    (ofSource source).types = ds ++ es ∧
      (Clean junk → ∃ e, (ofSource source).errors = [e] ∧ Blames junk next e.span) := by
  obtain ⟨m, hm, hread⟩ := typeDecls_append hbefore (Nat.lt_succ_self _)
  obtain ⟨f, us, rest, hfail, rfl, hends⟩ := typeDecls_broken hjunk hnext hm
  rw [hfail] at hread
  rw [ofSource, hsource, ofLexemes, hread]
  refine ⟨rfl, fun hclean => ?_⟩
  -- The declarations have no errors of their own, so the one failure is all there is.
  have hrest : Clean (rest ++ next) :=
    clean_append.2 ⟨(clean_append.1 hclean).2, clean_file hnext⟩
  have hall : Clean (before ++ (us ++ rest ++ next)) :=
    clean_append.2 ⟨clean_file hbefore, clean_append.2 ⟨hclean, clean_file hnext⟩⟩
  have hlast := List.getLast?_eq_some_getLast hjunk.nonempty
  have hfinish : next = [] →
      ((before ++ (us ++ rest ++ next)).getLast?.map (·.span.stop)).getD 0 =
        ((us ++ rest).getLast hjunk.nonempty).span.stop := by
    rintro rfl
    rw [List.append_nil, List.getLast?_append, hlast]
    rfl
  obtain ⟨e, he, hplace⟩ := failureError?_of_ends hends hrest hlast hfinish
  refine ⟨e, ?_, hplace⟩
  dsimp only
  rw [lexicalErrors_eq_nil_iff.2 hall, List.filterMap_cons_some he]
  exact List.mergeSort_singleton e

/-- A declaration that is left open looks at the next one and fails there. -/
theorem recovers_ofSource_leftOpen :
    let source := "type A \x7b\x7d type B \x7b fn f() \x7b type C \x7b\x7d"
    let before := (Lexeme.ofSource source).take 4
    let junk := ((Lexeme.ofSource source).drop 4).take 8
    let next := (Lexeme.ofSource source).drop 12
    ∃ ds es, IsFile before ds ∧ Broken junk next ∧ IsFile next es ∧
      (ofSource source).types = ds ++ es ∧
        (Clean junk → ∃ e, (ofSource source).errors = [e] ∧ Blames junk next e.span) := by
  intro source before junk next
  have hsource : Lexeme.ofSource source = before ++ (junk ++ next) := by decide +kernel
  have hbefore : IsFile before (typeDecls 5 before).1 :=
    isFile_of_no_failures _ _ (by decide +kernel) (by decide +kernel)
  have hnext : IsFile next (typeDecls 5 next).1 :=
    isFile_of_no_failures _ _ (by decide +kernel) (by decide +kernel)
  have hfail : (typeDecl 13 (junk ++ next)).isOk = false := by decide +kernel
  have hjunk : Broken junk next :=
    { nonempty := by decide +kernel
      within := by decide +kernel
      resumes := by decide +kernel
      notDecl := fun ts d hts => not_isTypeDecl_of_fails hfail (by decide +kernel) hts }
  exact ⟨_, _, hbefore, hjunk, hnext, recovers_ofSource hsource hbefore hjunk hnext⟩

end Parsed

end GenLang
