import GenLang.Proofs.Syntax.Spelling

/-!
# Layouts that the lexer reads back

Two words need white space between them, and some symbols would run into one another. `Runs p ps`
says that the pieces `ps` may stand behind `p` so that each token among them stays what it is. It is
stated from the left to the right, as the lexer goes, so that what a layout consists of can be
looked at piece by piece.
-/

namespace GenLang

open Text Lexer

namespace Piece

/-- A token in its spelling, or white space. -/
def Readable : Piece → Prop
  | token t => Spelled t
  | blank s => s.toList ≠ [] ∧ ∀ c ∈ s.toList, isSpace c

/-- Symbols that could make another symbol of the one they stand behind. -/
def clings : Symbol → Bool
  | .equal | .assign | .greater | .greaterEqual | .star | .slash => true
  | _ => false

/-- Whether the second piece may stand right behind the first. Behind a dot there is a name, so
that a number before the dot ends there. -/
def meets : Piece → Piece → Bool
  | blank _, _ | _, blank _ => true
  | token (.symbol .dot), token (.ident _) => true
  | token (.symbol .dot), token _ => false
  | token (.ident _), token (.symbol _) => true
  | token _, token (.symbol s) => !clings s
  | token (.symbol _), token _ | token (.str _), token _ | token _, token (.str _) => true
  | _, _ => false

def token? : Piece → Option Token
  | token t => some t
  | blank _ => none

end Piece

open Piece

/-- The text of pieces. -/
def chars (ps : List Piece) : List Char :=
  ps.flatMap (·.text.toList)

/-- The tokens among pieces. -/
def tokens (ps : List Piece) : List Token :=
  ps.filterMap token?

@[simp] theorem tokens_nil : tokens [] = [] := rfl

@[simp] theorem tokens_token (t : Token) (ps : List Piece) :
    tokens (.token t :: ps) = t :: tokens ps := rfl

@[simp] theorem tokens_blank (s : String) (ps : List Piece) :
    tokens (.blank s :: ps) = tokens ps := rfl

@[simp] theorem tokens_append (ps qs : List Piece) : tokens (ps ++ qs) = tokens ps ++ tokens qs :=
  List.filterMap_append

theorem readable_blank {s : String} (hne : s.toList ≠ []) (hs : s.toList.all isSpace) :
    (blank s).Readable :=
  ⟨hne, List.all_eq_true.1 hs⟩

/-- Pieces that may stand behind a piece. -/
def Runs (p : Piece) : List Piece → Prop
  | [] => True
  | q :: qs => q.Readable ∧ meets p q ∧ Runs q qs

theorem runs_of_blank {s : String} {p : Piece} {ps : List Piece} (h : Runs p ps) :
    Runs (.blank s) ps := by
  cases ps with
  | nil => trivial
  | cons q qs => exact ⟨h.1, rfl, h.2.2⟩

/-! ## What a piece begins with -/

/-- What is known of the first character of a piece. -/
def Starts : Piece → Char → Prop
  | .blank _, c => isSpace c
  | .token (.ident _), c | .token (.keyword _), c => isLetter c
  | .token (.int _), c => isDigit c
  | .token (.str _), c => c = '"'
  | .token (.symbol s), c => s.text.toList.head? = some c
  | .token _, _ => False

theorem chars_cons (p : Piece) (ps : List Piece) : chars (p :: ps) = p.text.toList ++ chars ps :=
  List.flatMap_cons

theorem starts_of_readable {p : Piece} (hp : p.Readable) :
    ∃ c cs, p.text.toList = c :: cs ∧ Starts p c := by
  cases p with
  | blank s =>
    obtain ⟨c, cs, hs⟩ := List.exists_cons_of_ne_nil hp.1
    exact ⟨c, cs, hs, hp.2 c (by rw [hs]; exact List.mem_cons_self)⟩
  | token t =>
    cases hp with
    | ident word =>
      obtain ⟨c, cs, hname, hc, -⟩ := word
      exact ⟨c, cs, hname, hc⟩
    | int n =>
      obtain ⟨c, cs, hn⟩ := List.exists_cons_of_ne_nil (toString_ne_nil n)
      exact ⟨c, cs, hn, isDigit_of_mem_toString (by rw [hn]; exact List.mem_cons_self)⟩
    | str s => exact ⟨'"', Printer.escape s.toList ++ ['"'], by simp [Piece.text, Token.text], rfl⟩
    | keyword k =>
      obtain ⟨c, cs, hk, hc, -⟩ := keyword_text k
      exact ⟨c, cs, hk, hc⟩
    | symbol s =>
      obtain ⟨c, cs, hs, -⟩ := symbol_text s
      exact ⟨c, cs, hs, by rw [Starts, hs]; rfl⟩

theorem starts_head {p : Piece} (hp : p.Readable) (ps : List Piece) :
    ∀ c ∈ (chars (p :: ps)).head?, Starts p c := by
  obtain ⟨c, cs, htext, hc⟩ := starts_of_readable hp
  rw [chars_cons, htext]
  rintro _ ⟨⟩
  exact hc

theorem not_isWordChar_of_isSpace {c : Char} (h : isSpace c) : ¬ isWordChar c := by
  intro hword
  rw [isSpace_eq_false hword] at h
  cases h

/-- Behind a word or a number there is nothing that a word can go on with. -/
theorem not_isWordChar_of_meets {t : Token} {q : Piece} {c : Char}
    (ht : (∃ s, t = .ident s) ∨ (∃ k, t = .keyword k) ∨ ∃ n, t = .int n)
    (hmeets : meets (.token t) q) (hc : Starts q c) : ¬ isWordChar c := by
  match q with
  | .blank s => exact not_isWordChar_of_isSpace hc
  | .token (.str s) =>
    rw [show c = '"' from hc]
    decide
  | .token (.symbol s) =>
    obtain ⟨d, ds, hs, -, hword⟩ := symbol_text s
    rw [Starts, hs] at hc
    obtain rfl := Option.some.inj hc
    rw [hword]
    exact Bool.false_ne_true
  | .token (.ident _) | .token (.keyword _) | .token (.int _) =>
    rcases ht with ⟨s, rfl⟩ | ⟨k, rfl⟩ | ⟨n, rfl⟩ <;> cases hmeets
  | .token (.float _) | .token (.verbatim _) | .token (.unterminated _) | .token (.comment _)
  | .token (.error _) => exact absurd hc id

theorem eq_dot_of_starts {q : Piece} (h : Starts q '.') : q = .token (.symbol .dot) := by
  match q with
  | .token (.symbol s) => cases s <;> first | rfl | cases h
  | .blank _ | .token (.ident _) | .token (.keyword _) | .token (.int _) | .token (.str _) =>
    simp [Starts, isSpace, isLetter, isDigit] at h
  | .token (.float _) | .token (.verbatim _) | .token (.unterminated _) | .token (.comment _)
  | .token (.error _) => exact absurd h id

/-- Behind a symbol there is nothing that could make another symbol of it. -/
theorem not_mem_of_meets {s : Symbol} {q : Piece} {c : Char}
    (hmeets : meets (.token (.symbol s)) q) (hc : Starts q c) : c ∉ ['=', '>', '/', '*'] := by
  intro hmem
  simp only [List.mem_cons, List.not_mem_nil, or_false] at hmem
  match q with
  | .token (.symbol u) =>
    have hclings : clings u = false := by
      cases s <;> cases u <;> first | rfl | cases hmeets
    rcases hmem with rfl | rfl | rfl | rfl <;> cases u <;>
      first | (cases hclings; done) | cases hc
  | .blank _ | .token (.ident _) | .token (.keyword _) | .token (.int _) | .token (.str _) =>
    rcases hmem with rfl | rfl | rfl | rfl <;> simp [Starts, isSpace, isLetter, isDigit] at hc
  | .token (.float _) | .token (.verbatim _) | .token (.unterminated _) | .token (.comment _)
  | .token (.error _) => exact absurd hc id

/-! ## Reading a layout back -/

theorem not_isDigit_of_not_isWordChar {c : Char} (h : ¬ isWordChar c) : ¬ isDigit c := by
  intro hdigit
  exact h (by simp [isWordChar, hdigit])

theorem ends_of_runs {t : Token} (ht : Spelled t) {ps : List Piece} (h : Runs (.token t) ps) :
    Ends t (chars ps) := by
  cases ps with
  | nil =>
    cases ht
    all_goals simp [Ends, chars]
  | cons q qs =>
    obtain ⟨hq, hmeets, hqs⟩ := h
    have hhead := starts_head hq qs
    cases ht with
    | ident => exact fun c hc => not_isWordChar_of_meets (.inl ⟨_, rfl⟩) hmeets (hhead c hc)
    | keyword =>
      exact fun c hc => not_isWordChar_of_meets (.inr (.inl ⟨_, rfl⟩)) hmeets (hhead c hc)
    | str => trivial
    | symbol => exact fun c hc => not_mem_of_meets hmeets (hhead c hc)
    | int n =>
      intro c hc
      have hword := not_isWordChar_of_meets (.inr (.inr ⟨_, rfl⟩)) hmeets (hhead c hc)
      refine ⟨not_isDigit_of_not_isWordChar hword, ?_⟩
      -- A point is a dot, and what stands behind a dot is a name.
      rintro rfl
      obtain rfl := eq_dot_of_starts (hhead _ hc)
      cases qs with
      | nil => simp [chars, Piece.text, Token.text, Symbol.text]
      | cons r rs =>
        obtain ⟨hr, hdot, -⟩ := hqs
        have htail : (chars (.token (.symbol .dot) :: r :: rs)).tail = chars (r :: rs) := by
          rw [chars_cons]
          rfl
        rw [htail]
        intro d hd
        have hstarts := starts_head hr rs d hd
        cases r with
        | blank s => exact not_isDigit_of_not_isWordChar (not_isWordChar_of_isSpace hstarts)
        | token t =>
          cases t with
          | ident s => simp [isDigit_eq_false hstarts]
          | _ => cases hdot

/-- The lexer finds exactly the tokens of a layout. -/
theorem lexemes_chars {p : Piece} {ps : List Piece} (h : Runs p ps) (start : Nat) :
    (lexemes start (chars ps)).map (·.token) = tokens ps := by
  induction ps generalizing p start with
  | nil =>
    rw [chars, List.flatMap_nil, lexemes]
    rfl
  | cons q qs ih =>
    obtain ⟨hq, -, hqs⟩ := h
    rw [chars_cons]
    cases q with
    | blank s =>
      show (lexemes start (s.toList ++ chars qs)).map (·.token) = _
      rw [lexemes_blank hq.2, ih hqs, tokens_blank]
    | token t =>
      show (lexemes start (t.text.toList ++ chars qs)).map (·.token) = _
      rw [lexemes_spelled hq (ends_of_runs hq hqs), List.map_cons, ih hqs, tokens_token]

end GenLang
