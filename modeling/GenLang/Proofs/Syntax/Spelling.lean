import Mathlib.Data.List.TakeWhile
import GenLang.Syntax.Printer

/-!
# Tokens that the lexer reads back

The printer spells out names, keywords, symbols, digits and quoted strings. Each of these texts is
one lexeme again, provided that what stands behind it does not make it longer.
-/

namespace GenLang

open Text Lexer

/-! ## Numbers -/

theorem Decimal.natOfDigits_toString (n : Nat) : natOfDigits (toString n).toList = n := by
  rw [Nat.toString_eq_repr, Nat.toList_repr]
  exact Nat.ofDigitChars_ten_toDigits

theorem isDigit_of_mem_toString {n : Nat} {c : Char} (h : c ∈ (toString n).toList) :
    isDigit c := by
  rw [Nat.toString_eq_repr, Nat.toList_repr] at h
  have hdigit := Nat.isDigit_of_mem_toDigits (by decide) (by decide) h
  simpa [isDigit, Char.isDigit, Char.le_def] using hdigit

theorem toString_ne_nil (n : Nat) : (toString n).toList ≠ [] := by
  rw [Nat.toString_eq_repr, Nat.toList_repr]
  exact Nat.toDigits_ne_nil

/-! ## Strings and comments -/

theorem quoted_cons {c : Char} (hquote : c ≠ '"') (hslash : c ≠ '\\') (cs : List Char) :
    quoted (c :: cs) = ((quoted cs).1 + 1, (quoted cs).2) := by
  rw [quoted]
  all_goals simp [hquote, hslash]

theorem quoted_escaped {c : Char} (hc : c ≠ '\n') (cs : List Char) :
    quoted ('\\' :: c :: cs) = ((quoted cs).1 + 2, (quoted cs).2) := by
  rw [quoted]
  exact hc

theorem verbatim_cons {c : Char} (hc : c ≠ '"') (cs : List Char) :
    verbatim (c :: cs) = ((verbatim cs).1 + 1, (verbatim cs).2) := by
  rw [verbatim]
  all_goals simp [hc]

theorem verbatim_doubled (cs : List Char) :
    verbatim ('"' :: '"' :: cs) = ((verbatim cs).1 + 2, (verbatim cs).2) :=
  rfl

theorem verbatim_quote {cs : List Char} (h : ∀ d ∈ cs.head?, d ≠ '"') :
    verbatim ('"' :: cs) = (1, true) := by
  rw [verbatim]
  rintro rest rfl
  exact h '"' rfl rfl

theorem blockComment_cons {c : Char} {cs : List Char}
    (hc : ∀ rest, c = '*' → cs = '/' :: rest → False) :
    blockComment (c :: cs) = ((blockComment cs).1 + 1, (blockComment cs).2) := by
  rw [blockComment]
  exact hc

/-! ## Quoted strings -/

/-- A character is escaped by one that is read back as it, or else stands for itself. -/
theorem escape_cons (c : Char) (cs : List Char) :
    (∃ d, d ≠ '\n' ∧ Printer.escape (c :: cs) = '\\' :: d :: Printer.escape cs ∧
        ∀ rest, unescape ('\\' :: d :: rest) = c :: unescape rest) ∨
      (c ≠ '"' ∧ c ≠ '\\' ∧ Printer.escape (c :: cs) = c :: Printer.escape cs) := by
  -- Six characters are written as two, and every other one stands for itself.
  by_cases hn : c = '\n'
  · subst hn
    exact .inl ⟨'n', by decide, rfl, fun _ => rfl⟩
  by_cases ht : c = '\t'
  · subst ht
    exact .inl ⟨'t', by decide, rfl, fun _ => rfl⟩
  by_cases hr : c = '\r'
  · subst hr
    exact .inl ⟨'r', by decide, rfl, fun _ => rfl⟩
  by_cases hnul : c = '\x00'
  · subst hnul
    exact .inl ⟨'0', by decide, rfl, fun _ => rfl⟩
  by_cases hslash : c = '\\'
  · subst hslash
    exact .inl ⟨'\\', by decide, rfl, fun _ => rfl⟩
  by_cases hquote : c = '"'
  · subst hquote
    exact .inl ⟨'"', by decide, rfl, fun _ => rfl⟩
  refine .inr ⟨hquote, hslash, ?_⟩
  simp only [Printer.escape, List.cons_append, List.nil_append]

theorem unescape_escape (cs : List Char) : unescape (Printer.escape cs) = cs := by
  induction cs with
  | nil => rfl
  | cons c cs ih =>
    rcases escape_cons c cs with ⟨d, -, hescape, hback⟩ | ⟨-, hslash, hescape⟩
    · rw [hescape, hback, ih]
    · rw [hescape, unescape, ih]
      all_goals simp [hslash]

/-- The closing quote is the first one that no backslash precedes. -/
theorem quoted_escape (cs rest : List Char) :
    quoted (Printer.escape cs ++ '"' :: rest) = ((Printer.escape cs).length + 1, true) := by
  induction cs with
  | nil => rfl
  | cons c cs ih =>
    rcases escape_cons c cs with ⟨d, hd, hescape, -⟩ | ⟨hquote, hslash, hescape⟩
    · rw [hescape, List.cons_append, List.cons_append, quoted_escaped hd, ih]
      rfl
    · rw [hescape, List.cons_append, quoted_cons hquote hslash, ih]
      rfl

/-! ## One lexeme -/

/-- A text that the lexer takes for a name. -/
def IsWord (text : String) : Prop :=
  ∃ c cs, text.toList = c :: cs ∧ isLetter c ∧ (∀ d ∈ cs, isWordChar d) ∧
    Keyword.ofText? text = none

/-- The tokens that a layout consists of, in the spelling it gives them. -/
inductive Spelled : Token → Prop
  | ident {name} (word : IsWord name) : Spelled (.ident name)
  | int (n : Nat) : Spelled (.int (toString n))
  | str (s : String) : Spelled (.str ("\"" ++ String.ofList (Printer.escape s.toList) ++ "\""))
  | keyword (k : Keyword) : Spelled (.keyword k)
  | symbol (s : Symbol) : Spelled (.symbol s)

/-- Text behind a token that does not make it longer or another one. -/
def Ends : Token → List Char → Prop
  | .ident _, rest | .keyword _, rest => ∀ c ∈ rest.head?, ¬ isWordChar c
  | .int _, rest =>
    ∀ c ∈ rest.head?, ¬ isDigit c ∧ (c = '.' → ∀ d ∈ rest.tail.head?, ¬ isDigit d)
  | .symbol _, rest => ∀ c ∈ rest.head?, c ∉ ['=', '>', '/', '*']
  | _, _ => True

theorem keyword_text (k : Keyword) :
    ∃ c cs, k.text.toList = c :: cs ∧ isLetter c ∧ ∀ d ∈ cs, isWordChar d := by
  have hall (cs : List Char) (h : cs.all isWordChar) : ∀ d ∈ cs, isWordChar d :=
    List.all_eq_true.1 h
  cases k <;> exact ⟨_, _, rfl, by decide, hall _ (by decide)⟩

theorem isSpace_eq_false {c : Char} (h : isWordChar c) : isSpace c = false := by
  rw [Bool.eq_false_iff]
  intro hspace
  simp only [isSpace, Bool.or_eq_true, beq_iff_eq] at hspace
  rcases hspace with (((rfl | rfl) | rfl) | rfl) | rfl <;> cases h

theorem isDigit_eq_false {c : Char} (h : isLetter c) : isDigit c = false := by
  simp only [isLetter, isDigit, Bool.or_eq_true, Bool.and_eq_true, decide_eq_true_eq, beq_iff_eq,
    Bool.and_eq_false_iff, decide_eq_false_iff_not, Char.not_le] at *
  rcases h with (⟨hlo, -⟩ | ⟨hlo, -⟩) | rfl
  · exact .inr (Nat.lt_of_lt_of_le (show '9'.toNat < 'a'.toNat by decide) hlo)
  · exact .inr (Nat.lt_of_lt_of_le (show '9'.toNat < 'A'.toNat by decide) hlo)
  · exact .inr (by decide)

theorem lexemes_cons {c : Char} {cs rest : List Char} {rule : Rule} (start : Nat)
    (hspace : isSpace c = false) (hmeasure : Lexer.measure c (cs ++ rest) = (rule, cs.length)) :
    lexemes start (c :: cs ++ rest) =
      ⟨rule.token (String.ofList (c :: cs)), ⟨start, start + byteLength (c :: cs)⟩⟩ ::
        lexemes (start + byteLength (c :: cs)) rest := by
  rw [List.cons_append, lexemes, if_neg (by simp [hspace]), hmeasure]
  simp only [List.take_left, List.drop_left]

theorem measure_word {c : Char} {cs rest : List Char} (hc : isLetter c)
    (hcs : ∀ d ∈ cs, isWordChar d) (hrest : ∀ d ∈ rest.head?, ¬ isWordChar d) :
    Lexer.measure c (cs ++ rest) = (.word, cs.length) := by
  unfold Lexer.measure
  rw [if_neg (by simp [isDigit_eq_false hc]), if_pos hc,
    List.takeWhile_append_of_pos (by simpa using hcs)]
  cases rest with
  | nil => simp
  | cons d rest => simp [hrest d rfl]

theorem measure_int {c : Char} {cs rest : List Char} (hcs : ∀ d ∈ c :: cs, isDigit d)
    (hrest : ∀ d ∈ rest.head?, ¬ isDigit d ∧ (d = '.' → ∀ e ∈ rest.tail.head?, ¬ isDigit e)) :
    Lexer.measure c (cs ++ rest) = (.int, cs.length) := by
  have hc := hcs c List.mem_cons_self
  have htail : ∀ d ∈ cs, isDigit d := fun d hd => hcs d (List.mem_cons_of_mem c hd)
  unfold Lexer.measure number
  rw [if_pos hc, List.takeWhile_append_of_pos (by simpa using htail),
    List.dropWhile_append_of_pos (by simpa using htail)]
  match rest with
  | [] => simp
  | d :: rest =>
    obtain ⟨hd, hdot⟩ := hrest d rfl
    rw [List.takeWhile_cons_of_neg hd, List.dropWhile_cons_of_neg hd, List.append_nil]
    split
    · next fraction h =>
      -- A point belongs to the number only if a digit follows it.
      obtain ⟨rfl, rfl⟩ := List.cons.inj h
      have hplaces : (rest.takeWhile isDigit).length = 0 := by
        cases rest with
        | nil => rfl
        | cons e rest => rw [List.takeWhile_cons_of_neg (hdot rfl e rfl), List.length_nil]
      rw [if_pos hplaces]
    · rfl

theorem measure_str (cs rest : List Char) :
    Lexer.measure '"' (Printer.escape cs ++ '"' :: rest) =
      (.str, (Printer.escape cs ++ ['"']).length) := by
  unfold Lexer.measure
  rw [if_neg (by decide), if_neg (by decide), if_pos rfl, quoted_escape]
  simp

theorem measure_symbol (s : Symbol) {c : Char} {cs rest : List Char} (hs : s.text.toList = c :: cs)
    (hrest : ∀ d ∈ rest.head?, d ∉ ['=', '>', '/', '*']) :
    Lexer.measure c (cs ++ rest) = (.symbol s, cs.length) := by
  cases s
  all_goals
    simp [Symbol.text] at hs
    obtain ⟨rfl, rfl⟩ := hs
    cases rest with
    | nil => rfl
    | cons d rest =>
      have hd := hrest d rfl
      simp only [List.mem_cons, List.not_mem_nil, or_false, not_or] at hd
      first
      | rfl
      | simp [Lexer.measure, Symbol.ofChars?, isDigit, isLetter, hd]; rfl

theorem symbol_text (s : Symbol) :
    ∃ c cs, s.text.toList = c :: cs ∧ isSpace c = false ∧ isWordChar c = false := by
  cases s <;> exact ⟨_, _, rfl, rfl, rfl⟩

theorem prefix_of_ofChars? {cs : List Char} {s : Symbol} (h : Symbol.ofChars? cs = some s) :
    s.text.toList <+: cs := by
  unfold Symbol.ofChars? at h
  split at h <;> cases h <;> exact ⟨_, rfl⟩

/-- A token of a layout is read back where the text behind it leaves it alone. -/
theorem lexemes_spelled {t : Token} (ht : Spelled t) {rest : List Char} (hends : Ends t rest)
    (start : Nat) :
    lexemes start (t.text.toList ++ rest) =
      ⟨t, ⟨start, start + byteLength t.text.toList⟩⟩ ::
        lexemes (start + byteLength t.text.toList) rest := by
  -- Each kind has a rule that takes all of the text and nothing of what follows.
  cases ht with
  | @ident name word =>
    obtain ⟨c, cs, hname, hc, hcs, hkeyword⟩ := word
    have hspace := isSpace_eq_false (by simp [isWordChar, hc] : isWordChar c)
    have htoken : Rule.word.token (String.ofList (c :: cs)) = .ident name := by
      rw [← hname, String.ofList_toList]
      simp only [Rule.token, hkeyword]
    simp only [Token.text]
    rw [hname, lexemes_cons start hspace (measure_word hc hcs hends), htoken]
  | int n =>
    obtain ⟨c, cs, hn⟩ := List.exists_cons_of_ne_nil (toString_ne_nil n)
    have hdigits : ∀ d ∈ c :: cs, isDigit d := by
      rw [← hn]
      exact fun d hd => isDigit_of_mem_toString hd
    have hspace := isSpace_eq_false (by simp [isWordChar, hdigits c] : isWordChar c)
    simp only [Token.text]
    rw [hn, lexemes_cons start hspace (measure_int hdigits hends), ← hn, String.ofList_toList]
    rfl
  | str s =>
    have htext : (Token.str ("\"" ++ String.ofList (Printer.escape s.toList) ++ "\"")).text.toList =
        '"' :: (Printer.escape s.toList ++ ['"']) := by
      simp [Token.text]
    have hmeasure : Lexer.measure '"' (Printer.escape s.toList ++ ['"'] ++ rest) =
        (.str, (Printer.escape s.toList ++ ['"']).length) := by
      rw [List.append_assoc, List.singleton_append]
      exact measure_str s.toList rest
    rw [htext, lexemes_cons start (by decide) hmeasure, ← htext, String.ofList_toList]
    rfl
  | keyword k =>
    obtain ⟨c, cs, hk, hc, hcs⟩ := keyword_text k
    have hspace := isSpace_eq_false (by simp [isWordChar, hc] : isWordChar c)
    have htoken : Rule.word.token (String.ofList (c :: cs)) = .keyword k := by
      rw [← hk, String.ofList_toList]
      simp only [Rule.token, Keyword.ofText?_text]
    simp only [Token.text]
    rw [hk, lexemes_cons start hspace (measure_word hc hcs hends), htoken]
  | symbol s =>
    obtain ⟨c, cs, hs, hspace, -⟩ := symbol_text s
    simp only [Token.text]
    rw [hs, lexemes_cons start hspace (measure_symbol s hs hends)]
    rfl

theorem lexemes_blank {cs : List Char} (hcs : ∀ c ∈ cs, isSpace c) (rest : List Char)
    (start : Nat) : lexemes start (cs ++ rest) = lexemes (start + byteLength cs) rest := by
  induction cs generalizing start with
  | nil => rfl
  | cons c cs ih =>
    have hc := hcs c List.mem_cons_self
    rw [List.cons_append, lexemes, if_pos hc, ih fun d hd => hcs d (List.mem_cons_of_mem c hd),
      byteLength_cons, Nat.add_assoc]

end GenLang
