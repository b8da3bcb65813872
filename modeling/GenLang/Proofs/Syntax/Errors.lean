import Mathlib.Data.List.Forall2
import GenLang.Proofs.Syntax.Recognition
import GenLang.Proofs.Syntax.Places
import GenLang.Proofs.Texts.Positions

/-!
# The list of syntax errors

Errors come from two sides: from the lexer, about tokens that are none, and from the parser, about
tokens it could do nothing with. They are put together in the order of their places, and a complaint
of the parser about a token the lexer has reported is left out. That loses nothing: no error at all
is left only where every token is part of a declaration.
-/

namespace GenLang

open Text Grammar

/-- What a sorted list has in common with the list as it was: a part of it that was in order. -/
theorem filter_mergeSort {α : Type} {le : α → α → Bool}
    (trans : ∀ a b c, le a b = true → le b c = true → le a c = true)
    (total : ∀ a b, (le a b || le b a) = true) {p : α → Bool} {l : List α}
    (h : (l.filter p).Pairwise fun a b => le a b = true) :
    (l.mergeSort le).filter p = l.filter p := by
  have hkept := (List.sublist_mergeSort trans total h List.filter_sublist).filter p
  rw [List.filter_filter] at hkept
  simp only [Bool.and_self] at hkept
  refine (hkept.eq_of_length ?_).symm
  exact ((List.mergeSort_perm l le).filter p).length_eq.symm

/-! ## Places of tokens -/

theorem Text.boundary_of_text? {source s : String} {span : Span} (h : span.text? source = some s) :
    Boundary source span.start ∧ Boundary source span.stop := by
  unfold Span.text? at h
  split at h
  · cases h
  · next hle =>
    simp only [Option.bind_eq_bind, Option.bind_eq_some_iff] at h
    obtain ⟨⟨before, rest⟩, hbefore, ⟨selected, after⟩, hselected, -⟩ := h
    obtain ⟨hsource, hstart⟩ := cut?_eq_some hbefore
    obtain ⟨hrest, hlength⟩ := cut?_eq_some hselected
    refine ⟨boundary_iff.2 ⟨before, rest, hsource, hstart⟩,
      boundary_iff.2 ⟨before ++ selected, after, ?_, ?_⟩⟩
    · rw [hsource, List.append_assoc, ← hrest]
    · rw [byteLength_append]
      omega

namespace Lexeme.InOrder

variable {source : String} {ts : List Lexeme} {t u : Lexeme}

theorem boundary (h : InOrder source ts) (ht : t ∈ ts) :
    Boundary source t.span.start ∧ Boundary source t.span.stop :=
  boundary_of_text? (h.selects t ht)

theorem stop_le_last (h : InOrder source ts) (hu : ts.getLast? = some u) (ht : t ∈ ts) :
    t.span.stop ≤ u.span.stop := by
  obtain ⟨before, rfl⟩ := List.getLast?_eq_some_iff.1 hu
  rcases List.mem_append.1 ht with ht | ht
  · have hnonempty := h.nonempty u (by simp)
    have hapart := (List.pairwise_append.1 h.apart).2.2 t ht u List.mem_cons_self
    omega
  · rw [List.mem_singleton.1 ht]

theorem first_le_start (h : InOrder source ts) (hu : ts.head? = some u) (ht : t ∈ ts) :
    u.span.start ≤ t.span.start := by
  obtain ⟨after, rfl⟩ := List.head?_eq_some_iff.1 hu
  rcases List.mem_cons.1 ht with rfl | ht
  · exact Nat.le_refl _
  · have hnonempty := h.nonempty u List.mem_cons_self
    have hapart := (List.pairwise_cons.1 h.apart).1 t ht
    omega

/-- The place of a row of tokens reaches from its first to its last one. -/
theorem merge_eq (h : InOrder source ts) (ht : ts.head? = some t) (hu : ts.getLast? = some u) :
    t.span.merge u.span = ⟨t.span.start, u.span.stop⟩ := by
  have hfirst := h.first_le_start ht (List.mem_of_getLast? hu)
  have hlast := h.stop_le_last hu (List.mem_of_head? ht)
  rw [Span.merge, Nat.min_eq_left hfirst, Nat.max_eq_right hlast]

end Lexeme.InOrder

/-! ## Places of errors -/

/-- Whether an error is one of the lexer. -/
def SyntaxProblem.isLexical : SyntaxProblem → Bool
  | .unexpectedChar _ | .unterminatedString => true
  | _ => false

namespace Parsed

open Parse

/-- The places that errors of the parser can have. -/
inductive Placed (ts : List Lexeme) (finish : Nat) : Span → Prop
  | row {t u ws} (h : CleanRow ts t u ws) : Placed ts finish (t.span.merge u.span)
  | finish : Placed ts finish ⟨finish, finish⟩

theorem placed_of_blamed {ts : List Lexeme} {finish : Nat} {f : Failure} {e : SyntaxError}
    (hf : Blamed ts f) (h : failureError? finish f = some e) :
    e.problem.isLexical = false ∧ Placed ts finish e.span := by
  cases hf with
  | finish =>
    cases h
    exact ⟨rfl, .finish⟩
  | row message hrow =>
    cases h
    exact ⟨rfl, .row hrow⟩
  -- a lexeme that is an error itself is left to the lexical errors
  | @token t ht =>
    dsimp only [failureError?] at h
    split at h
    · cases h
    · next hclean =>
      cases h
      rw [Bool.not_eq_true] at hclean
      refine ⟨rfl, ?_⟩
      show Placed ts finish t.span
      rw [← t.span.merge_self]
      have hrow : [t] <:+: ts := by
        obtain ⟨before, after, rfl⟩ := List.append_of_mem ht
        exact ⟨before, after, by simp⟩
      exact .row ⟨hrow, rfl, rfl, by simpa using hclean⟩

section

variable {source : String} {ts : List Lexeme} {finish : Nat} {s : Span}

/-- The end of the last token, where a text is said to end. -/
def finishOf (ts : List Lexeme) : Nat :=
  (ts.getLast?.map (·.span.stop)).getD 0

theorem stop_le_finishOf (hts : Lexeme.InOrder source ts) {t : Lexeme} (ht : t ∈ ts) :
    t.span.stop ≤ finishOf ts := by
  have hne := List.ne_nil_of_mem ht
  have hlast := List.getLast?_eq_some_getLast hne
  rw [finishOf, hlast]
  exact hts.stop_le_last hlast ht

theorem boundary_finishOf (hts : Lexeme.InOrder source ts) : Boundary source (finishOf ts) := by
  unfold finishOf
  cases h : ts.getLast? with
  | none => exact boundary_iff.2 ⟨[], source.toList, rfl, rfl⟩
  | some t => exact (hts.boundary (List.mem_of_getLast? h)).2

theorem Placed.within (h : Placed ts (finishOf ts) s) (hts : Lexeme.InOrder source ts) :
    s.start ≤ s.stop ∧ Boundary source s.start ∧ Boundary source s.stop := by
  cases h with
  | finish => exact ⟨Nat.le_refl _, boundary_finishOf hts, boundary_finishOf hts⟩
  | @row t u ws h =>
    have hws := hts.sublist h.row.sublist
    have ht := List.mem_of_head? h.first
    have hu := List.mem_of_getLast? h.last
    rw [hws.merge_eq h.first h.last]
    have hstart := hws.first_le_start h.first hu
    have hnonempty := hws.nonempty u hu
    exact ⟨by dsimp only; omega, (hws.boundary ht).1, (hws.boundary hu).2⟩

/-- An error of the parser is at no token that the lexer has reported: it is before it or behind
it. -/
theorem Placed.apart (h : Placed ts (finishOf ts) s) (hts : Lexeme.InOrder source ts) {x : Lexeme}
    (hx : x ∈ ts) (hlexical : x.token.isLexicalError = true) :
    (s.start < x.span.start ∧ s.stop ≤ x.span.start) ∨ x.span.stop ≤ s.start := by
  cases h with
  | finish => exact .inr (stop_le_finishOf hts hx)
  | @row t u ws h =>
    have hws := hts.sublist h.row.sublist
    have ht := List.mem_of_head? h.first
    have hu := List.mem_of_getLast? h.last
    rw [hws.merge_eq h.first h.last]
    -- The row has no lexical error in it, so this one stands before it or behind it.
    have hnot : x ∉ ws := by
      intro hmem
      rw [h.clean x hmem] at hlexical
      cases hlexical
    obtain ⟨before, after, rfl⟩ := h.row
    have hpairs := List.pairwise_append.1 hts.apart
    rcases List.mem_append.1 hx with hx | hx
    · rcases List.mem_append.1 hx with hx | hx
      · exact .inr ((List.pairwise_append.1 hpairs.1).2.2 x hx t ht)
      · exact absurd hx hnot
    · have hstart := hws.first_le_start h.first hu
      have hnonempty := hws.nonempty u hu
      have hbehind := hpairs.2.2 u (List.mem_append_right before hu) x hx
      exact .inl ⟨by dsimp only; omega, hbehind⟩

end

/-! ## Errors of the lexer -/

/-- The error at a token that is none, with the text that the source has there. -/
inductive Marks (source : String) : Lexeme → SyntaxError → Prop
  | char {text span} (h : span.text? source = some text) :
      Marks source ⟨.error text, span⟩ { problem := .unexpectedChar text, span }
  | string {text span} : Marks source ⟨.unterminated text, span⟩
      { problem := .unterminatedString, span, hint := some "add a closing '\"'" }

theorem lexicalError?_eq_some {t : Lexeme} {e : SyntaxError} (h : lexicalError? t = some e) :
    t.token.isLexicalError = true ∧ e.problem.isLexical = true ∧ e.span = t.span := by
  obtain ⟨token, span⟩ := t
  cases token with
  | error text =>
    cases h
    exact ⟨rfl, rfl, rfl⟩
  | unterminated text =>
    cases h
    exact ⟨rfl, rfl, rfl⟩
  | _ => cases h

theorem marks_lexicalErrors {source : String} {ts : List Lexeme}
    (h : ∀ t ∈ ts, t.span.text? source = some t.token.text) :
    List.Forall₂ (Marks source) (ts.filter (·.token.isLexicalError))
      (ts.filterMap lexicalError?) := by
  induction ts with
  | nil => exact .nil
  | cons t ts ih =>
    obtain ⟨htext, hrest⟩ := List.forall_mem_cons.1 h
    obtain ⟨token, span⟩ := t
    cases token with
    | error text => exact .cons (.char htext) (ih hrest)
    | unterminated text => exact .cons .string (ih hrest)
    | _ => exact ih hrest

theorem filter_ofSource (source : String) :
    (Lexeme.ofSource source).filter (·.token.isLexicalError) =
      (Lexeme.scan source).filter (·.token.isLexicalError) := by
  unfold Lexeme.ofSource
  rw [List.filter_filter]
  refine List.filter_congr fun t _ => ?_
  obtain ⟨token, span⟩ := t
  cases token <;> rfl

/-! ## Tokens of declarations -/

/-- The place of a declaration reaches over all of its tokens. -/
theorem within_typeDecl {source : String} {ts : List Lexeme} {d : TypeDecl}
    (h : IsTypeDecl ts d) (hts : Lexeme.InOrder source ts) {t : Lexeme} (ht : t ∈ ts) :
    d.span.start ≤ t.span.start ∧ t.span.stop ≤ d.span.stop := by
  cases h with
  | @mk mods k w i gs g bs b o vs ms c =>
    have hlast : t.span.stop ≤ c.stop := hts.stop_le_last (List.getLast?_concat ..) ht
    have hfirst : (firstSpan mods w).start ≤ t.span.start := by
      cases mods with
      | nil => exact hts.first_le_start rfl ht
      | cons m mods => exact hts.first_le_start rfl ht
    exact ⟨Nat.le_trans (Nat.min_le_left _ _) hfirst, Nat.le_trans hlast (Nat.le_max_right _ _)⟩

/-- Every token of a file is one of a declaration. -/
theorem exists_typeDecl_of_mem {ts : List Lexeme} {ds : List TypeDecl} (h : IsFile ts ds)
    {t : Lexeme} (ht : t ∈ ts) : ∃ d ∈ ds, ∃ us, us <:+: ts ∧ IsTypeDecl us d ∧ t ∈ us := by
  induction h with
  | nil => cases ht
  | @cons us vs d ds first others ih =>
    rcases List.mem_append.1 ht with ht | ht
    · exact ⟨d, List.mem_cons_self, us, (List.prefix_append us vs).isInfix, first, ht⟩
    · obtain ⟨d', hd', ws, hws, hdecl, ht⟩ := ih ht
      exact ⟨d', List.mem_cons_of_mem d hd', ws, hws.trans (List.suffix_append us vs).isInfix,
        hdecl, ht⟩

/-! ## The list of errors -/

/-- What the errors of a source are. -/
structure Reports (source : String) (p : Parsed) : Prop where
  /-- They are in the order of their places. -/
  sorted : p.errors.Pairwise fun a b => a.span.start ≤ b.span.start
  /-- Their places are in the text, between characters. -/
  placed : ∀ e ∈ p.errors,
    e.span.start ≤ e.span.stop ∧ Boundary source e.span.start ∧ Boundary source e.span.stop
  /-- Those of the lexer are one for each token that is none, in the same order. -/
  lexical : List.Forall₂ (Marks source) ((Lexeme.scan source).filter (·.token.isLexicalError))
    (p.errors.filter (·.problem.isLexical))
  /-- No other error is at such a token. -/
  apart : ∀ e ∈ p.errors, e.problem.isLexical = false →
    ∀ t ∈ Lexeme.scan source, t.token.isLexicalError = true →
      (e.span.start < t.span.start ∧ e.span.stop ≤ t.span.start) ∨ t.span.stop ≤ e.span.start
  /-- Where there are none, each token is part of a declaration, and within its place. -/
  complete : p.errors = [] → ∀ t ∈ Lexeme.ofSource source, ∃ d ∈ p.types,
    (∃ ts, ts <:+: Lexeme.ofSource source ∧ IsTypeDecl ts d ∧ t ∈ ts) ∧
      d.span.start ≤ t.span.start ∧ t.span.stop ≤ d.span.stop

theorem mem_errors {ts : List Lexeme} {e : SyntaxError} (h : e ∈ (ofLexemes ts).errors) :
    (∃ t ∈ ts, lexicalError? t = some e) ∨
      (e.problem.isLexical = false ∧ Placed ts (finishOf ts) e.span) := by
  dsimp only [ofLexemes] at h
  rw [List.mem_mergeSort, List.mem_append, List.mem_filterMap, List.mem_filterMap] at h
  rcases h with h | ⟨f, hf, he⟩
  · exact .inl h
  · exact .inr (placed_of_blamed (blamed_typeDecls _ _ hf) he)

theorem le_start_trans (a b c : SyntaxError) (hab : decide (a.span.start ≤ b.span.start) = true)
    (hbc : decide (b.span.start ≤ c.span.start) = true) :
    decide (a.span.start ≤ c.span.start) = true := by
  rw [decide_eq_true_eq] at hab hbc ⊢
  exact Nat.le_trans hab hbc

theorem le_start_total (a b : SyntaxError) :
    (decide (a.span.start ≤ b.span.start) || decide (b.span.start ≤ a.span.start)) = true := by
  rw [Bool.or_eq_true, decide_eq_true_eq, decide_eq_true_eq]
  exact Nat.le_total _ _

theorem sorted_errors (ts : List Lexeme) :
    (ofLexemes ts).errors.Pairwise fun a b => a.span.start ≤ b.span.start :=
  (List.pairwise_mergeSort le_start_trans le_start_total _).imp of_decide_eq_true

/-- The errors of the lexer, which are sorted among those of the parser, keep their order. -/
theorem filter_errors {source : String} {ts : List Lexeme} (hts : Lexeme.InOrder source ts) :
    (ofLexemes ts).errors.filter (·.problem.isLexical) = ts.filterMap lexicalError? := by
  have hlexical : ∀ e ∈ ts.filterMap lexicalError?, e.problem.isLexical = true := by
    intro e he
    obtain ⟨t, -, ht⟩ := List.mem_filterMap.1 he
    exact (lexicalError?_eq_some ht).2.1
  have hothers : ∀ e ∈ (typeDecls (ts.length + 1) ts).2.filterMap (failureError? (finishOf ts)),
      ¬ e.problem.isLexical = true := by
    intro e he
    obtain ⟨f, hf, he⟩ := List.mem_filterMap.1 he
    rw [(placed_of_blamed (blamed_typeDecls _ _ hf) he).1]
    exact Bool.false_ne_true
  have hfilter : (ts.filterMap lexicalError? ++
      (typeDecls (ts.length + 1) ts).2.filterMap (failureError? (finishOf ts))).filter
        (·.problem.isLexical) = ts.filterMap lexicalError? := by
    rw [List.filter_append, List.filter_eq_self.2 hlexical, List.filter_eq_nil_iff.2 hothers,
      List.append_nil]
  -- lexical errors are in order already, and sorting is stable
  have hsorted : (ts.filterMap lexicalError?).Pairwise fun a b =>
      decide (a.span.start ≤ b.span.start) = true := by
    refine List.pairwise_filterMap.2 (hts.apart.imp_of_mem fun {t u} ht _ hapart => ?_)
    intro e he e' he'
    have hnonempty := hts.nonempty t ht
    rw [(lexicalError?_eq_some he).2.2, (lexicalError?_eq_some he').2.2, decide_eq_true_eq]
    omega
  refine (filter_mergeSort le_start_trans le_start_total ?_).trans hfilter
  exact hfilter.symm ▸ hsorted

/-- The errors of every source are sorted and in the text. Those of the lexer are its complaints,
none of the others repeats one, and nothing of the source goes unread without an error. -/
theorem errors_reported (source : String) : Reports source (ofSource source) := by
  have hts := Lexeme.inOrder_ofSource source
  have hscan {t : Lexeme} (ht : t ∈ Lexeme.scan source) (hlexical : t.token.isLexicalError = true) :
      t ∈ Lexeme.ofSource source := by
    have hmem : t ∈ (Lexeme.scan source).filter (·.token.isLexicalError) :=
      List.mem_filter.2 ⟨ht, hlexical⟩
    rw [← filter_ofSource] at hmem
    exact (List.mem_filter.1 hmem).1
  constructor
  case sorted => exact sorted_errors _
  case placed =>
    intro e he
    rcases mem_errors he with ⟨t, ht, hlexical⟩ | ⟨-, hplaced⟩
    · rw [(lexicalError?_eq_some hlexical).2.2]
      exact ⟨Nat.le_of_lt (hts.nonempty t ht), hts.boundary ht⟩
    · exact hplaced.within hts
  case lexical =>
    rw [ofSource, filter_errors hts, ← filter_ofSource]
    exact marks_lexicalErrors hts.selects
  case apart =>
    intro e he hother t ht hlexical
    rcases mem_errors he with ⟨u, -, hu⟩ | ⟨-, hplaced⟩
    · rw [(lexicalError?_eq_some hu).2.1] at hother
      cases hother
    · exact hplaced.apart hts (hscan ht hlexical) hlexical
  case complete =>
    intro hnone t ht
    obtain ⟨-, hfailures⟩ := ofLexemes_errors_eq_nil_iff.1 hnone
    have hfile := isFile_of_no_failures _ _ (Nat.lt_succ_self _) hfailures
    obtain ⟨d, hd, us, hus, hdecl, hmem⟩ := exists_typeDecl_of_mem hfile ht
    exact ⟨d, hd, ⟨us, hus, hdecl, hmem⟩, within_typeDecl hdecl (hts.sublist hus.sublist) hmem⟩

end Parsed

end GenLang
