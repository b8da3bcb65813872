import GenLang.Proofs.Syntax.Keys

/-!
# Lexical rules

Which texts are lexemes, told by the form of the text alone. At every place the lexer takes the
longest lexeme there is, and a character with which none begins for an error.
-/

namespace GenLang

open Text Lexer

/-! ## The rules -/

/-- The body of a quoted string: no quote stands in it by itself, and a backslash takes the next
character with it, which is on the same line. -/
inductive QuotedBody : List Char → Prop
  | nil : QuotedBody []
  | plain {c cs} (hquote : c ≠ '"') (hslash : c ≠ '\\') (rest : QuotedBody cs) :
      QuotedBody (c :: cs)
  | escape {c cs} (hc : c ≠ '\n') (rest : QuotedBody cs) : QuotedBody ('\\' :: c :: cs)

/-- The body of a verbatim string, in which quotes stand in pairs. -/
inductive VerbatimBody : List Char → Prop
  | nil : VerbatimBody []
  | plain {c cs} (hc : c ≠ '"') (rest : VerbatimBody cs) : VerbatimBody (c :: cs)
  | doubled {cs} (rest : VerbatimBody cs) : VerbatimBody ('"' :: '"' :: cs)

/-- The lexemes in front of a rest of the source. What is behind a lexeme matters only where it runs
to the end of the source because it is not closed. -/
inductive IsLexeme (rest : List Char) : Token → List Char → Prop
  | int {d ds} (digits : ∀ c ∈ d :: ds, isDigit c) :
      IsLexeme rest (.int (String.ofList (d :: ds))) (d :: ds)
  | float {d ds f fs} (whole : ∀ c ∈ d :: ds, isDigit c) (fraction : ∀ c ∈ f :: fs, isDigit c) :
      IsLexeme rest (.float (String.ofList (d :: (ds ++ '.' :: f :: fs))))
        (d :: (ds ++ '.' :: f :: fs))
  | str {body} (h : QuotedBody body) :
      IsLexeme rest (.str (String.ofList ('"' :: (body ++ ['"'])))) ('"' :: (body ++ ['"']))
  | openStr {body} (h : QuotedBody body) :
      IsLexeme rest (.unterminated (String.ofList ('"' :: body))) ('"' :: body)
  | verbatim {body} (h : VerbatimBody body) :
      IsLexeme rest (.verbatim (String.ofList ('@' :: '"' :: (body ++ ['"']))))
        ('@' :: '"' :: (body ++ ['"']))
  | openVerbatim {body} (h : VerbatimBody body) (atEnd : rest = []) :
      IsLexeme rest (.unterminated (String.ofList ('@' :: '"' :: body))) ('@' :: '"' :: body)
  | name {c cs} (letter : isLetter c) (hcs : ∀ d ∈ cs, isWordChar d) :
      IsLexeme rest (.ident (String.ofList (c :: cs))) (c :: cs)
  | keyword (k : Keyword) : IsLexeme rest (.keyword k) k.text.toList
  | lineComment {body} (h : '\n' ∉ body) :
      IsLexeme rest (.comment (String.ofList ('/' :: '/' :: body))) ('/' :: '/' :: body)
  /-- A block comment ends at the first closing delimiter. -/
  | blockComment {body} (h : ¬ ['*', '/'] <:+: body ++ ['*']) :
      IsLexeme rest (.comment (String.ofList ('/' :: '*' :: (body ++ ['*', '/']))))
        ('/' :: '*' :: (body ++ ['*', '/']))
  | openComment {body} (h : ¬ ['*', '/'] <:+: body) (atEnd : rest = []) :
      IsLexeme rest (.error (String.ofList ('/' :: '*' :: body))) ('/' :: '*' :: body)
  | symbol (s : Symbol) : IsLexeme rest (.symbol s) s.text.toList

/-- Which token a lexeme is that could be either: a keyword comes before the name it spells. -/
def Token.Precedes (t u : Token) : Prop :=
  u = t ∨ ∃ k, t = .keyword k ∧ u = .ident k.text

/-- The token at the front of a text, its own characters and the rest. It is the longest lexeme of
all, and where texts of equal length are two lexemes, one of them is a keyword and taken before the
name. A character that is no space and begins no lexeme is an error. -/
inductive Munch : Token → List Char → List Char → Prop
  | longest {t cs rest} (h : IsLexeme rest t cs)
      (longest : ∀ u ds more, ds ++ more = cs ++ rest → IsLexeme more u ds →
        ds.length ≤ cs.length)
      (first : ∀ u, IsLexeme rest u cs → t.Precedes u) :
      Munch t cs rest
  | stray {c rest} (hspace : isSpace c = false)
      (none : ∀ u ds more, ds ++ more = c :: rest → ¬ IsLexeme more u ds) :
      Munch (.error (String.ofList [c])) [c] rest

/-! ## Scanning a lexeme to its end -/

theorem quoted_append {body : List Char} (h : QuotedBody body) (tail : List Char) :
    quoted (body ++ tail) = (body.length + (quoted tail).1, (quoted tail).2) := by
  induction h with
  | nil => simp
  | plain hquote hslash _ ih =>
    rw [List.cons_append, quoted_cons hquote hslash, ih, List.length_cons, Nat.add_right_comm]
  | escape hc _ ih =>
    rw [List.cons_append, List.cons_append, quoted_escaped hc, ih, List.length_cons,
      List.length_cons, Nat.add_right_comm]

/-- A closed string has a closing quote at least. -/
theorem quoted_pos {cs : List Char} (h : (quoted cs).2) : 0 < (quoted cs).1 := by
  fun_induction quoted cs <;> simp_all

theorem verbatim_append {body : List Char} (h : VerbatimBody body) (tail : List Char) :
    verbatim (body ++ tail) = (body.length + (verbatim tail).1, (verbatim tail).2) := by
  induction h with
  | nil => simp
  | plain hc _ ih =>
    rw [List.cons_append, verbatim_cons hc, ih, List.length_cons, Nat.add_right_comm]
  | doubled _ ih =>
    rw [List.cons_append, List.cons_append, verbatim_doubled, ih, List.length_cons,
      List.length_cons, Nat.add_right_comm]

theorem blockComment_closed {body : List Char} (h : ¬ ['*', '/'] <:+: body ++ ['*'])
    (tail : List Char) : blockComment (body ++ '*' :: '/' :: tail) = (body.length + 2, true) := by
  induction body with
  | nil => rfl
  | cons c body ih =>
    rw [List.cons_append, blockComment_cons,
      ih fun hin => h (hin.trans (List.suffix_cons _ _).isInfix)]
    · rfl
    · -- a delimiter at the front would be one of the body
      rintro more rfl hmore
      cases body with
      | nil => cases hmore
      | cons d body =>
        obtain ⟨rfl, -⟩ := List.cons.inj hmore
        exact h ⟨[], body ++ ['*'], rfl⟩

theorem blockComment_open {body : List Char} (h : ¬ ['*', '/'] <:+: body) :
    blockComment body = (body.length, false) := by
  induction body with
  | nil => rfl
  | cons c body ih =>
    rw [blockComment_cons, ih fun hin => h (hin.trans (List.suffix_cons _ _).isInfix)]
    · rfl
    · rintro more rfl rfl
      exact h ⟨[], more, rfl⟩

/-- Behind digits, the lexer reads at least these, and more if it reads a float. -/
theorem number_append {ds : List Char} (hds : ∀ d ∈ ds, isDigit d) (rest : List Char) :
    ∃ n, number (ds ++ rest) = (.int, n) ∧ ds.length ≤ n ∨
      number (ds ++ rest) = (.float, n) ∧ ds.length < n := by
  obtain ⟨es, after, rfl, hes, hafter⟩ := exists_digits rest
  have hdigits : ∀ d ∈ ds ++ es, isDigit d := List.forall_mem_append.2 ⟨hds, hes⟩
  rw [← List.append_assoc]
  rcases number_cases hdigits hafter with hnumber | ⟨f, fs, more, -, -, hnumber⟩
  · exact ⟨_, .inl ⟨hnumber, by rw [List.length_append]; omega⟩⟩
  · exact ⟨_, .inr ⟨hnumber, by simp only [List.length_append, List.length_cons]; omega⟩⟩

theorem takeWhile_append_length {p : Char → Bool} {cs : List Char} (hcs : ∀ c ∈ cs, p c)
    (rest : List Char) :
    ((cs ++ rest).takeWhile p).length = cs.length + (rest.takeWhile p).length := by
  rw [List.takeWhile_append_of_pos hcs, List.length_append]

/-! ## The lexer reads no less -/

/-- What the lexer reads of a text that begins with a lexeme is no shorter than it, and a token that
comes before it where it is no longer. -/
def Covered (rest : List Char) (t : Token) (cs : List Char) : Prop :=
  ∃ d ds, cs = d :: ds ∧ isSpace d = false ∧ ds.length ≤ (Lexer.measure d (ds ++ rest)).2 ∧
    ((Lexer.measure d (ds ++ rest)).2 = ds.length →
      ((Lexer.measure d (ds ++ rest)).1.token (String.ofList cs)).Precedes t)

section

variable {rest : List Char} {t : Token}

theorem covered_of_measure {d : Char} {ds : List Char} {rule : Rule} {n : Nat}
    (hspace : isSpace d = false) (hmeasure : Lexer.measure d (ds ++ rest) = (rule, n))
    (hle : ds.length ≤ n) (heq : n = ds.length → rule.token (String.ofList (d :: ds)) = t) :
    Covered rest t (d :: ds) := by
  refine ⟨d, ds, rfl, hspace, ?_, ?_⟩ <;> rw [hmeasure]
  · exact hle
  · exact fun hn => .inl (heq hn).symm

theorem measure_digit {d : Char} (hd : isDigit d) (ds : List Char) :
    Lexer.measure d ds = number ds := by
  unfold Lexer.measure
  rw [if_pos hd]

theorem measure_letter {c : Char} (hc : isLetter c) (cs : List Char) :
    Lexer.measure c cs = (.word, (cs.takeWhile isWordChar).length) := by
  unfold Lexer.measure
  rw [if_neg (by simp [isDigit_eq_false hc]), if_pos hc]

theorem covered_int {d : Char} {ds : List Char} (hds : ∀ c ∈ d :: ds, isDigit c) :
    Covered rest (.int (String.ofList (d :: ds))) (d :: ds) := by
  obtain ⟨hd, hds⟩ := List.forall_mem_cons.1 hds
  have hspace := isSpace_eq_false (by simp [isWordChar, hd] : isWordChar d)
  obtain ⟨n, ⟨hnumber, hle⟩ | ⟨hnumber, hlt⟩⟩ := number_append hds rest
  · exact covered_of_measure hspace ((measure_digit hd _).trans hnumber) hle fun _ => rfl
  · -- a float that begins with the digits is longer than they are
    refine covered_of_measure hspace ((measure_digit hd _).trans hnumber) hlt.le fun hn => ?_
    omega

theorem covered_float {d f : Char} {ds fs : List Char} (whole : ∀ c ∈ d :: ds, isDigit c)
    (fraction : ∀ c ∈ f :: fs, isDigit c) :
    Covered rest (.float (String.ofList (d :: (ds ++ '.' :: f :: fs))))
      (d :: (ds ++ '.' :: f :: fs)) := by
  obtain ⟨hd, hds⟩ := List.forall_mem_cons.1 whole
  have hspace := isSpace_eq_false (by simp [isWordChar, hd] : isWordChar d)
  -- more digits behind the fraction belong to it
  have hplaces := takeWhile_append_length fraction rest
  have hnumber := number_point hds (f :: fs ++ rest)
  rw [hplaces, if_neg (by rw [List.length_cons]; omega)] at hnumber
  rw [← List.cons_append, ← List.append_assoc] at hnumber
  refine covered_of_measure hspace ((measure_digit hd _).trans hnumber) ?_ fun _ => rfl
  simp only [List.length_append, List.length_cons]
  omega

theorem covered_str {body : List Char} (h : QuotedBody body) :
    Covered rest (.str (String.ofList ('"' :: (body ++ ['"'])))) ('"' :: (body ++ ['"'])) := by
  have hquoted : quoted (body ++ ['"'] ++ rest) = (body.length + 1, true) := by
    rw [List.append_assoc, quoted_append h]
    rfl
  have hmeasure := measure_quote (body ++ ['"'] ++ rest)
  rw [hquoted] at hmeasure
  exact covered_of_measure (by decide) hmeasure (by simp) fun _ => rfl

theorem covered_openStr {body : List Char} (h : QuotedBody body) :
    Covered rest (.unterminated (String.ofList ('"' :: body))) ('"' :: body) := by
  have hmeasure := measure_quote (body ++ rest)
  rw [quoted_append h] at hmeasure
  refine covered_of_measure (by decide) hmeasure (Nat.le_add_right _ _) fun hn => ?_
  -- a closing quote would have been read as well
  have hopen : (quoted rest).2 = false := by
    rw [Bool.eq_false_iff]
    intro hclosed
    have := quoted_pos hclosed
    omega
  rw [hopen]
  rfl

theorem covered_verbatim {body : List Char} (h : VerbatimBody body) :
    Covered rest (.verbatim (String.ofList ('@' :: '"' :: (body ++ ['"']))))
      ('@' :: '"' :: (body ++ ['"'])) := by
  have hmeasure := measure_verbatim (body ++ '"' :: rest)
  rw [verbatim_append h, List.append_cons, ← List.cons_append] at hmeasure
  by_cases hquote : ∃ more, rest = '"' :: more
  · -- two quotes do not close the string
    obtain ⟨more, rfl⟩ := hquote
    rw [verbatim_doubled] at hmeasure
    refine covered_of_measure (by decide) hmeasure ?_ fun hn => ?_
    · simp only [List.length_cons, List.length_append, List.length_nil]
      omega
    · simp only [List.length_cons, List.length_append, List.length_nil] at hn
      omega
  · have hclosed : verbatim ('"' :: rest) = (1, true) :=
      verbatim_quote (ne_of_mem_head? fun more h => hquote ⟨more, h⟩)
    rw [hclosed] at hmeasure
    refine covered_of_measure (by decide) hmeasure ?_ fun _ => rfl
    simp

theorem covered_openVerbatim {body : List Char} (h : VerbatimBody body) :
    Covered [] (.unterminated (String.ofList ('@' :: '"' :: body))) ('@' :: '"' :: body) := by
  have hmeasure := measure_verbatim (body ++ [])
  rw [verbatim_append h, ← List.cons_append] at hmeasure
  exact covered_of_measure (by decide) hmeasure (Nat.le_refl _) fun _ => rfl

theorem covered_lineComment {body : List Char} (h : '\n' ∉ body) :
    Covered rest (.comment (String.ofList ('/' :: '/' :: body))) ('/' :: '/' :: body) := by
  have hmeasure : Lexer.measure '/' ('/' :: body ++ rest) =
      (.comment, ((body ++ rest).takeWhile (· != '\n')).length + 1) := rfl
  have hbody : ∀ c ∈ body, c != '\n' := by
    rintro c hc
    rw [bne_iff_ne]
    rintro rfl
    exact h hc
  rw [takeWhile_append_length hbody] at hmeasure
  refine covered_of_measure (by decide) hmeasure ?_ fun _ => rfl
  rw [List.length_cons]
  omega

theorem covered_blockComment {body : List Char} (h : ¬ ['*', '/'] <:+: body ++ ['*']) :
    Covered rest (.comment (String.ofList ('/' :: '*' :: (body ++ ['*', '/']))))
      ('/' :: '*' :: (body ++ ['*', '/'])) := by
  have hmeasure := measure_blockComment (body ++ '*' :: '/' :: rest)
  rw [blockComment_closed h] at hmeasure
  have htext : '*' :: (body ++ ['*', '/']) ++ rest = '*' :: (body ++ '*' :: '/' :: rest) := by simp
  rw [← htext] at hmeasure
  exact covered_of_measure (by decide) hmeasure (by simp) fun _ => rfl

theorem covered_openComment {body : List Char} (h : ¬ ['*', '/'] <:+: body) :
    Covered [] (.error (String.ofList ('/' :: '*' :: body))) ('/' :: '*' :: body) := by
  have hmeasure := measure_blockComment body
  rw [blockComment_open h, ← List.append_nil ('*' :: body)] at hmeasure
  exact covered_of_measure (by decide) hmeasure (Nat.le_refl _) fun _ => rfl

theorem covered_word {c : Char} {cs : List Char} (hc : isLetter c) (hcs : ∀ d ∈ cs, isWordChar d)
    (ht : (Rule.word.token (String.ofList (c :: cs))).Precedes t) : Covered rest t (c :: cs) := by
  refine ⟨c, cs, rfl, isSpace_eq_false (by simp [isWordChar, hc] : isWordChar c), ?_, ?_⟩
  · rw [measure_letter hc, takeWhile_append_length hcs]
    exact Nat.le_add_right _ _
  · rw [measure_letter hc]
    exact fun _ => ht

theorem covered_name {c : Char} {cs : List Char} (hc : isLetter c) (hcs : ∀ d ∈ cs, isWordChar d) :
    Covered rest (.ident (String.ofList (c :: cs))) (c :: cs) := by
  refine covered_word hc hcs ?_
  simp only [Rule.token]
  cases hkeyword : Keyword.ofText? (String.ofList (c :: cs)) with
  | none => exact .inl rfl
  | some k =>
    -- the same letters are a keyword, which comes before the name
    have htext := List.find?_some hkeyword
    exact .inr ⟨k, rfl, by rw [eq_of_beq htext]⟩

theorem covered_keyword (k : Keyword) : Covered rest (.keyword k) k.text.toList := by
  obtain ⟨c, cs, hk, hc, hcs⟩ := keyword_text k
  rw [hk]
  refine covered_word hc hcs (.inl ?_)
  rw [← hk, String.ofList_toList]
  simp only [Rule.token, Keyword.ofText?_text]

theorem Symbol.text_injective {s s' : Symbol} (h : s'.text.toList = s.text.toList) : s' = s :=
  Option.some.inj (by rw [← ofChars?_text, h, ofChars?_text])

theorem Symbol.length_text (s : Symbol) : s.text.length = s.text.toList.length :=
  String.length_toList.symm

/-- In front of a symbol stands that symbol or a longer one. -/
theorem ofChars?_append (s : Symbol) (rest : List Char) :
    ∃ s', Symbol.ofChars? (s.text.toList ++ rest) = some s' ∧ s.text.length ≤ s'.text.length ∧
      (s'.text.length = s.text.length → s' = s) := by
  obtain ⟨s', hs'⟩ := Option.ne_none_iff_exists'.1 (ofChars?_text_append s rest)
  refine ⟨s', hs', ?_, fun hlength => ?_⟩
  · -- a symbol of two characters is looked for first
    have hlong : s.text.length = 1 ∨ Symbol.ofChars? (s.text.toList ++ rest) = some s := by
      cases s <;> first | exact .inl rfl | exact .inr rfl
    have hpos : 0 < s'.text.length := by
      cases s' <;> decide
    rcases hlong with hone | hsame
    · omega
    · rw [hs'] at hsame
      rw [Option.some.inj hsame]
  · rw [Symbol.length_text, Symbol.length_text] at hlength
    have hprefix := prefix_of_ofChars? hs'
    exact Symbol.text_injective ((List.prefix_of_prefix_length_le hprefix (List.prefix_append _ _)
      hlength.le).eq_of_length hlength)

/-- What is no number, word or quoted string begins a verbatim string or a comment, or stands for
itself. -/
theorem measure_sign {c : Char} (hdigit : ¬ isDigit c) (hletter : ¬ isLetter c) (hquote : c ≠ '"')
    (cs : List Char) :
    (∃ body, c = '@' ∧ cs = '"' :: body) ∨
      (∃ body, c = '/' ∧ (cs = '/' :: body ∨ cs = '*' :: body)) ∨
        Lexer.measure c cs =
          (Symbol.ofChars? (c :: cs)).elim (.error, 0) fun s => (.symbol s, s.text.length - 1) := by
  unfold Lexer.measure
  rw [if_neg hdigit, if_neg hletter, if_neg hquote]
  split
  · exact .inl ⟨_, rfl, rfl⟩
  · exact .inr (.inl ⟨_, rfl, .inl rfl⟩)
  · exact .inr (.inl ⟨_, rfl, .inr rfl⟩)
  · right
    right
    cases Symbol.ofChars? (c :: cs) <;> rfl

/-- A symbol does not begin a string. -/
theorem symbol_first {s : Symbol} {d : Char} {ds : List Char} (htext : s.text.toList = d :: ds) :
    d ≠ '"' ∧ d ≠ '@' ∧ (d = '/' → ds = []) := by
  cases s <;> cases htext <;> decide

theorem covered_symbol (s : Symbol) : Covered rest (.symbol s) s.text.toList := by
  obtain ⟨d, ds, hs, hspace, hword⟩ := symbol_text s
  obtain ⟨hletter, hdigit⟩ := Bool.or_eq_false_iff.1 hword
  obtain ⟨s', hs', hle, heq⟩ := ofChars?_append s rest
  have hlength : s.text.length = ds.length + 1 := by rw [Symbol.length_text, hs, List.length_cons]
  obtain ⟨hquote, hat, hsingle⟩ := symbol_first hs
  rw [hs, List.cons_append] at hs'
  rw [hs]
  rcases measure_sign (by simp [hdigit]) (by simp [hletter]) hquote (ds ++ rest) with
    ⟨body, hverbatim, -⟩ | ⟨body, rfl, hcomment⟩ | hmeasure
  · exact absurd hverbatim hat
  · -- a slash that begins a comment, which is longer
    obtain rfl := hsingle rfl
    rw [List.nil_append] at hcomment
    rcases hcomment with rfl | rfl
    · exact covered_of_measure hspace rfl (Nat.zero_le _) fun hn => absurd hn (Nat.succ_ne_zero _)
    · refine covered_of_measure hspace (measure_blockComment body) (Nat.zero_le _) fun hn => ?_
      exact absurd hn (Nat.succ_ne_zero _)
  · rw [hs', Option.elim_some] at hmeasure
    refine covered_of_measure hspace hmeasure (by omega) fun hn => ?_
    rw [heq (by omega)]
    rfl

theorem covered_of_isLexeme {cs : List Char} (h : IsLexeme rest t cs) : Covered rest t cs := by
  cases h with
  | int digits => exact covered_int digits
  | float whole fraction => exact covered_float whole fraction
  | str h => exact covered_str h
  | openStr h => exact covered_openStr h
  | verbatim h => exact covered_verbatim h
  | openVerbatim h atEnd => exact atEnd ▸ covered_openVerbatim h
  | name letter hcs => exact covered_name letter hcs
  | keyword k => exact covered_keyword k
  | lineComment h => exact covered_lineComment h
  | blockComment h => exact covered_blockComment h
  | openComment h atEnd => exact atEnd ▸ covered_openComment h
  | symbol s => exact covered_symbol s

end

/-! ## The lexer reads lexemes -/

theorem exists_quoted (cs : List Char) : ∃ body after, QuotedBody body ∧
    (cs = body ++ '"' :: after ∧ quoted cs = (body.length + 1, true) ∨
      cs = body ++ after ∧ quoted cs = (body.length, false)) := by
  induction cs using quoted.induct with
  | case1 => exact ⟨[], [], .nil, .inr ⟨rfl, rfl⟩⟩
  | case2 after => exact ⟨[], after, .nil, .inl ⟨rfl, rfl⟩⟩
  | case3 => exact ⟨[], _, .nil, .inr ⟨rfl, rfl⟩⟩
  | case4 after => exact ⟨[], _, .nil, .inr ⟨rfl, rfl⟩⟩
  | case5 c rest hc _ _ _ ih =>
    obtain ⟨body, after, hbody, ⟨rfl, hquoted⟩ | ⟨rfl, hquoted⟩⟩ := ih
    · exact ⟨_, after, .escape hc hbody, .inl ⟨rfl, by rw [quoted_escaped hc, hquoted]; rfl⟩⟩
    · exact ⟨_, after, .escape hc hbody, .inr ⟨rfl, by rw [quoted_escaped hc, hquoted]; rfl⟩⟩
  | case6 c rest hquote hend _ hescape _ _ _ ih =>
    have hslash := ne_backslash hend hescape
    obtain ⟨body, after, hbody, ⟨rfl, hquoted⟩ | ⟨rfl, hquoted⟩⟩ := ih
    · exact ⟨_, after, .plain hquote hslash hbody,
        .inl ⟨rfl, by rw [quoted_cons hquote hslash, hquoted]; rfl⟩⟩
    · exact ⟨_, after, .plain hquote hslash hbody,
        .inr ⟨rfl, by rw [quoted_cons hquote hslash, hquoted]; rfl⟩⟩

theorem exists_verbatim (cs : List Char) : ∃ body, VerbatimBody body ∧
    ((∃ after, cs = body ++ '"' :: after ∧ verbatim cs = (body.length + 1, true)) ∨
      cs = body ∧ verbatim cs = (body.length, false)) := by
  induction cs using verbatim.induct with
  | case1 => exact ⟨[], .nil, .inr ⟨rfl, rfl⟩⟩
  | case2 rest _ _ _ ih =>
    obtain ⟨body, hbody, ⟨after, rfl, hverbatim⟩ | ⟨rfl, hverbatim⟩⟩ := ih
    · exact ⟨_, .doubled hbody, .inl ⟨after, rfl, by rw [verbatim_doubled, hverbatim]; rfl⟩⟩
    · exact ⟨_, .doubled hbody, .inr ⟨rfl, by rw [verbatim_doubled, hverbatim]; rfl⟩⟩
  | case3 rest hrest =>
    exact ⟨[], .nil, .inl ⟨rest, rfl, verbatim_quote (ne_of_mem_head? hrest)⟩⟩
  | case4 c rest _ hc _ _ _ ih =>
    obtain ⟨body, hbody, ⟨after, rfl, hverbatim⟩ | ⟨rfl, hverbatim⟩⟩ := ih
    · exact ⟨_, .plain hc hbody, .inl ⟨after, rfl, by rw [verbatim_cons hc, hverbatim]; rfl⟩⟩
    · exact ⟨_, .plain hc hbody, .inr ⟨rfl, by rw [verbatim_cons hc, hverbatim]; rfl⟩⟩

theorem exists_blockComment (cs : List Char) : ∃ body,
    (¬ ['*', '/'] <:+: body ++ ['*'] ∧
      ∃ after, cs = body ++ '*' :: '/' :: after ∧ blockComment cs = (body.length + 2, true)) ∨
      ¬ ['*', '/'] <:+: body ∧ cs = body ∧ blockComment cs = (body.length, false) := by
  induction cs using blockComment.induct with
  | case1 => exact ⟨[], .inr ⟨by decide, rfl, rfl⟩⟩
  | case2 after => exact ⟨[], .inl ⟨by decide, after, rfl, rfl⟩⟩
  | case3 c rest hc _ _ _ ih =>
    -- a delimiter of the longer text is one of the shorter, since none is at the front
    have hinside {ds more : List Char} (hrest : rest = ds ++ more)
        (h : ['*', '/'] <:+: c :: ds) : ['*', '/'] <:+: ds := by
      refine (List.infix_cons_iff.1 h).resolve_left fun hfront => ?_
      obtain ⟨tail, htail⟩ := hfront
      obtain ⟨rfl, rfl⟩ := List.cons.inj htail
      exact hc (tail ++ more) rfl hrest
    obtain ⟨body, ⟨hbody, after, hcs, hcomment⟩ | ⟨hbody, rfl, hcomment⟩⟩ := ih
    · refine ⟨c :: body, .inl ⟨fun h => hbody ?_, after, congrArg _ hcs, ?_⟩⟩
      · exact hinside (hcs.trans (List.append_cons _ _ _)) h
      · rw [blockComment_cons hc, hcomment]
        rfl
    · refine ⟨_, .inr ⟨fun h => hbody (hinside (List.append_nil _).symm h), rfl, ?_⟩⟩
      rw [blockComment_cons hc, hcomment]
      rfl

/-- What the lexer takes at the front of a text is a lexeme, or the first character as an error. -/
def Taken (c : Char) (rest : List Char) : Prop :=
  ∃ ds after, rest = ds ++ after ∧ (Lexer.measure c rest).2 = ds.length ∧
    (IsLexeme after ((Lexer.measure c rest).1.token (String.ofList (c :: ds))) (c :: ds) ∨
      ds = [] ∧ (Lexer.measure c rest).1 = .error)

theorem taken_of_measure {c : Char} {ds after : List Char} {rule : Rule} {n : Nat}
    (hmeasure : Lexer.measure c (ds ++ after) = (rule, n)) (hn : n = ds.length)
    (h : IsLexeme after (rule.token (String.ofList (c :: ds))) (c :: ds)) :
    Taken c (ds ++ after) := by
  refine ⟨ds, after, rfl, ?_, .inl ?_⟩ <;> rw [hmeasure]
  · exact hn
  · exact h

theorem taken_digit {c : Char} (hc : isDigit c) (rest : List Char) : Taken c rest := by
  obtain ⟨ds, after, rfl, hds, hafter⟩ := exists_digits rest
  have hdigits : ∀ d ∈ c :: ds, isDigit d := List.forall_mem_cons.2 ⟨hc, hds⟩
  rcases number_cases hds hafter with hnumber | ⟨f, fs, more, rfl, hfraction, hnumber⟩
  · exact taken_of_measure ((measure_digit hc _).trans hnumber) rfl (.int hdigits)
  · rw [← List.append_assoc] at hnumber ⊢
    exact taken_of_measure ((measure_digit hc _).trans hnumber) rfl (.float hdigits hfraction)

theorem isLexeme_word {c : Char} {cs : List Char} (hc : isLetter c) (hcs : ∀ d ∈ cs, isWordChar d)
    (after : List Char) : IsLexeme after (Rule.word.token (String.ofList (c :: cs))) (c :: cs) := by
  simp only [Rule.token]
  cases hkeyword : Keyword.ofText? (String.ofList (c :: cs)) with
  | none => exact .name hc hcs
  | some k =>
    have htext := List.find?_some hkeyword
    have hchars : k.text.toList = c :: cs := by rw [eq_of_beq htext, String.toList_ofList]
    exact hchars ▸ .keyword k

theorem taken_letter {c : Char} (hc : isLetter c) (rest : List Char) : Taken c rest := by
  have hmeasure := measure_letter hc rest
  have hrest : rest.takeWhile isWordChar ++ rest.dropWhile isWordChar = rest :=
    List.takeWhile_append_dropWhile
  rw [← hrest]
  refine taken_of_measure (hrest.symm ▸ hmeasure) rfl (isLexeme_word hc (fun d hd => ?_) _)
  exact List.mem_takeWhile_imp hd

theorem taken_quote (rest : List Char) : Taken '"' rest := by
  have hmeasure := measure_quote rest
  obtain ⟨body, after, hbody, ⟨rfl, hquoted⟩ | ⟨rfl, hquoted⟩⟩ := exists_quoted rest
  · rw [hquoted] at hmeasure
    rw [List.append_cons] at hmeasure ⊢
    exact taken_of_measure hmeasure (by simp) (.str hbody)
  · rw [hquoted] at hmeasure
    exact taken_of_measure hmeasure rfl (.openStr hbody)

theorem taken_verbatim (cs : List Char) : Taken '@' ('"' :: cs) := by
  have hmeasure := measure_verbatim cs
  obtain ⟨body, hbody, ⟨after, rfl, hverbatim⟩ | ⟨rfl, hverbatim⟩⟩ := exists_verbatim cs
  · rw [hverbatim] at hmeasure
    rw [List.append_cons, ← List.cons_append] at hmeasure ⊢
    exact taken_of_measure hmeasure (by simp) (.verbatim hbody)
  · rw [hverbatim] at hmeasure
    rw [← List.append_nil ('"' :: cs)] at hmeasure ⊢
    exact taken_of_measure hmeasure rfl (.openVerbatim hbody rfl)

theorem taken_lineComment (cs : List Char) : Taken '/' ('/' :: cs) := by
  have hmeasure : Lexer.measure '/' ('/' :: cs) =
    (.comment, (cs.takeWhile (· != '\n')).length + 1) := rfl
  have hcs : '/' :: cs.takeWhile (· != '\n') ++ cs.dropWhile (· != '\n') = '/' :: cs :=
    congrArg _ List.takeWhile_append_dropWhile
  rw [← hcs]
  refine taken_of_measure (hcs.symm ▸ hmeasure) rfl (.lineComment fun hbreak => ?_)
  exact absurd (List.mem_takeWhile_imp hbreak) (by decide)

theorem taken_blockComment (cs : List Char) : Taken '/' ('*' :: cs) := by
  have hmeasure := measure_blockComment cs
  obtain ⟨body, ⟨hbody, after, rfl, hcomment⟩ | ⟨hbody, rfl, hcomment⟩⟩ := exists_blockComment cs
  · rw [hcomment] at hmeasure
    have htext : '*' :: (body ++ '*' :: '/' :: after) = '*' :: (body ++ ['*', '/']) ++ after := by
      simp
    rw [htext] at hmeasure ⊢
    exact taken_of_measure hmeasure (by simp) (.blockComment hbody)
  · rw [hcomment] at hmeasure
    rw [← List.append_nil ('*' :: cs)] at hmeasure ⊢
    exact taken_of_measure hmeasure rfl (.openComment hbody rfl)

/-- What stands for itself is a symbol or an error. -/
theorem taken_sign {c : Char} {rest : List Char} (hmeasure : Lexer.measure c rest =
    (Symbol.ofChars? (c :: rest)).elim (.error, 0) fun s => (.symbol s, s.text.length - 1)) :
    Taken c rest := by
  cases hsymbol : Symbol.ofChars? (c :: rest) with
  | none =>
    rw [hsymbol] at hmeasure
    exact ⟨[], rest, rfl, by rw [hmeasure]; rfl, .inr ⟨rfl, by rw [hmeasure]; rfl⟩⟩
  | some s =>
    rw [hsymbol, Option.elim_some] at hmeasure
    obtain ⟨d, ds, hs, -, -⟩ := symbol_text s
    have hprefix := prefix_of_ofChars? hsymbol
    rw [hs] at hprefix
    obtain ⟨after, hafter⟩ := hprefix
    obtain ⟨rfl, rfl⟩ := List.cons.inj hafter
    refine taken_of_measure hmeasure ?_ (hs ▸ .symbol s)
    rw [Symbol.length_text, hs]
    rfl

theorem taken (c : Char) (rest : List Char) : Taken c rest := by
  by_cases hdigit : isDigit c
  · exact taken_digit hdigit rest
  by_cases hletter : isLetter c
  · exact taken_letter hletter rest
  by_cases hquote : c = '"'
  · exact hquote ▸ taken_quote rest
  rcases measure_sign hdigit hletter hquote rest with
    ⟨body, rfl, rfl⟩ | ⟨body, rfl, rfl | rfl⟩ | hmeasure
  · exact taken_verbatim body
  · exact taken_lineComment body
  · exact taken_blockComment body
  · exact taken_sign hmeasure

theorem IsLexeme.text {rest cs : List Char} {t : Token} (h : IsLexeme rest t cs) :
    t.text = String.ofList cs := by
  cases h with
  | keyword k => exact (String.ofList_toList).symm
  | symbol s => exact (String.ofList_toList).symm
  | _ => rfl

/-- An error that is a lexeme is a comment without end. -/
theorem IsLexeme.length_error {rest cs : List Char} {text : String}
    (h : IsLexeme rest (.error text) cs) : 2 ≤ cs.length := by
  cases h with
  | openComment => exact Nat.le_add_left 2 _

/-- What the lexer takes is the longest lexeme, or begins none. -/
theorem exists_munch {c : Char} (hspace : isSpace c = false) (rest : List Char) :
    ∃ ds after, rest = ds ++ after ∧ (Lexer.measure c rest).2 = ds.length ∧
      Munch ((Lexer.measure c rest).1.token (String.ofList (c :: ds))) (c :: ds) after := by
  obtain ⟨ds, after, rfl, hn, h⟩ := taken c rest
  refine ⟨ds, after, rfl, hn, ?_⟩
  -- every lexeme at the place is within what the lexer takes
  have hcovered {u es more} (htext : es ++ more = c :: (ds ++ after)) (hu : IsLexeme more u es) :
      ∃ es', es = c :: es' ∧ es'.length ≤ ds.length ∧ (es'.length = ds.length →
        ((Lexer.measure c (ds ++ after)).1.token (String.ofList es)).Precedes u) := by
    obtain ⟨d, es, rfl, -, hle, hprecedes⟩ := covered_of_isLexeme hu
    rw [List.cons_append] at htext
    obtain ⟨rfl, htail⟩ := List.cons.inj htext
    rw [htail, hn] at hle hprecedes
    exact ⟨es, rfl, hle, fun hlength => hprecedes hlength.symm⟩
  rcases h with h | ⟨rfl, hrule⟩
  · refine .longest h (fun u es more htext hu => ?_) fun u hu => ?_
    · obtain ⟨es, rfl, hle, -⟩ := hcovered htext hu
      exact Nat.succ_le_succ hle
    · obtain ⟨es, hes, -, hprecedes⟩ := hcovered rfl hu
      rw [(List.cons.inj hes).2] at hprecedes ⊢
      exact hprecedes rfl
  · refine (congrArg (Rule.token · _) hrule).symm ▸ .stray hspace fun u es more htext hu => ?_
    -- such a lexeme would be an error of one character
    obtain ⟨es, rfl, hle, hprecedes⟩ := hcovered htext hu
    obtain rfl := List.length_eq_zero_iff.1 (Nat.le_zero.1 hle)
    rw [hrule] at hprecedes
    rcases hprecedes rfl with rfl | ⟨k, hk, -⟩
    · exact absurd hu.length_error (by simp)
    · cases hk

/-! ## The tiling -/

theorem Munch.text {t : Token} {cs rest : List Char} (h : Munch t cs rest) :
    t.text = String.ofList cs := by
  cases h with
  | longest h => exact h.text
  | stray => rfl

/-- Tokens that tile the text between `before` and the end of the source, with nothing but spaces
between them. -/
inductive Tiling : List Char → List Char → List Lexeme → Prop
  | done {before} : Tiling before [] []
  | space {before c rest ls} (hc : isSpace c) (h : Tiling (before ++ [c]) rest ls) :
      Tiling before (c :: rest) ls
  | lexeme {before c cs rest t ls} (munch : Munch t (c :: cs) rest)
      (h : Tiling (before ++ c :: cs) rest ls) :
      Tiling before (c :: cs ++ rest)
        (⟨t, ⟨byteLength before, byteLength (before ++ c :: cs)⟩⟩ :: ls)

theorem tiling_lexemes (before cs : List Char) :
    Tiling before cs (lexemes (byteLength before) cs) := by
  generalize hstart : byteLength before = start
  induction start, cs using lexemes.induct generalizing before with
  | case1 =>
    rw [lexemes]
    exact .done
  | case2 start c rest hspace ih =>
    rw [lexemes, if_pos hspace]
    exact .space hspace (ih _ (by rw [byteLength_append, hstart]; rfl))
  | case3 start c rest hspace rule n hmeasure taken stop ih =>
    have hword := Bool.eq_false_iff.2 hspace
    -- `ds` are the characters taken behind the first, and the tiling goes on behind them
    obtain ⟨ds, after, rfl, hn, hmunch⟩ := exists_munch hword rest
    rw [hmeasure] at hn hmunch
    subst hn
    have htaken : taken = c :: ds := congrArg _ List.take_left
    have hlength : start + byteLength (c :: ds) = byteLength (before ++ c :: ds) := by
      rw [byteLength_append, hstart]
    have hstop : stop = byteLength (before ++ c :: ds) := by rw [← hlength, ← htaken]
    have hrest := ih (before ++ c :: ds) hstop.symm
    rw [List.drop_left, hstop] at hrest
    rw [← List.cons_append, lexemes_cons start hword hmeasure, hlength, ← hstart]
    exact .lexeme hmunch hrest

namespace Tiling

variable {before cs : List Char} {ls : List Lexeme}

theorem exists_of_mem (h : Tiling before cs ls) {l : Lexeme} (hl : l ∈ ls) :
    ∃ skipped d ds after, cs = skipped ++ d :: ds ++ after ∧ Munch l.token (d :: ds) after ∧
      l.span = ⟨byteLength (before ++ skipped), byteLength (before ++ skipped ++ d :: ds)⟩ := by
  induction h with
  | done => cases hl
  | @space before c rest ls hc h ih =>
    obtain ⟨skipped, d, ds, after, rfl, hmunch, hspan⟩ := ih hl
    rw [List.append_assoc, List.singleton_append] at hspan
    exact ⟨c :: skipped, d, ds, after, rfl, hmunch, hspan⟩
  | @lexeme before c cs rest t ls munch h ih =>
    rcases List.mem_cons.1 hl with rfl | hl
    · exact ⟨[], c, cs, rest, rfl, munch, by rw [List.append_nil]⟩
    · obtain ⟨skipped, d, ds, after, rfl, hmunch, hspan⟩ := ih hl
      rw [List.append_assoc before] at hspan
      exact ⟨c :: cs ++ skipped, d, ds, after, by simp, hmunch, hspan⟩

theorem start_lt_stop (h : Tiling before cs ls) {l : Lexeme} (hl : l ∈ ls) :
    l.span.start < l.span.stop := by
  obtain ⟨skipped, d, ds, after, -, -, hspan⟩ := h.exists_of_mem hl
  rw [hspan]
  have := d.utf8Size_pos
  simp only [byteLength_append, byteLength_cons]
  omega

theorem le_start (h : Tiling before cs ls) {l : Lexeme} (hl : l ∈ ls) :
    byteLength before ≤ l.span.start := by
  obtain ⟨skipped, d, ds, after, -, -, hspan⟩ := h.exists_of_mem hl
  rw [hspan, byteLength_append]
  exact Nat.le_add_right _ _

theorem ordered (h : Tiling before cs ls) :
    ls.Pairwise fun l l' => l.span.stop ≤ l'.span.start := by
  induction h with
  | done => exact .nil
  | space _ _ ih => exact ih
  | lexeme _ h ih => exact .cons (fun l' hl' => h.le_start hl') ih

theorem isSpace_of_not_mem (h : Tiling before cs ls) {skipped after : List Char} {c : Char}
    (hcs : cs = skipped ++ c :: after) (hout : ∀ l ∈ ls,
      byteLength (before ++ skipped) < l.span.start ∨
        l.span.stop ≤ byteLength (before ++ skipped)) :
    isSpace c := by
  induction h generalizing skipped with
  | done => exact absurd hcs (by simp)
  | @space before d rest ls hd h ih =>
    rcases skipped with _ | ⟨e, skipped⟩
    · exact (List.cons.inj hcs).1 ▸ hd
    · obtain ⟨rfl, rfl⟩ := List.cons.inj hcs
      rw [List.append_cons] at hout
      exact ih rfl hout
  | @lexeme before d ds rest t ls munch h ih =>
    rcases List.append_eq_append_iff.1 hcs with ⟨more, rfl, hrest⟩ | ⟨inside, hlexeme, hafter⟩
    · -- the character is behind the lexeme
      rw [← List.append_assoc] at hout
      exact ih hrest fun l hl => hout l (List.mem_cons_of_mem _ hl)
    · rcases inside with _ | ⟨e, inside⟩
      · rw [List.append_nil] at hlexeme
        rw [← hlexeme, ← List.append_nil (before ++ d :: ds)] at hout
        exact ih (List.nil_append rest ▸ hafter.symm) fun l hl => hout l (List.mem_cons_of_mem _ hl)
      · -- the character is of the lexeme
        exfalso
        rcases hout _ List.mem_cons_self with hlt | hle
        · rw [byteLength_append] at hlt
          exact absurd hlt (Nat.not_lt.2 (Nat.le_add_right _ _))
        · rw [hlexeme, byteLength_append, byteLength_append, byteLength_append,
            byteLength_cons] at hle
          have := e.utf8Size_pos
          dsimp only at hle
          omega

end Tiling

theorem text?_eq {source : String} {before cs after : List Char}
    (h : source.toList = before ++ cs ++ after) :
    Span.text? ⟨byteLength before, byteLength (before ++ cs)⟩ source = some (String.ofList cs) := by
  have hstop : byteLength (before ++ cs) - byteLength before = byteLength cs := by
    rw [byteLength_append, Nat.add_sub_cancel_left]
  unfold Span.text?
  rw [if_neg (by rw [byteLength_append]; exact Nat.not_lt.2 (Nat.le_add_right _ _))]
  dsimp only
  rw [h, List.append_assoc, cut?_byteLength, hstop]
  dsimp only [Option.bind_eq_bind, Option.bind_some]
  rw [cut?_byteLength]
  rfl

/-- Spans select the texts of their tokens. -/
theorem Tiling.text? {source : String} {ls : List Lexeme} (h : Tiling [] source.toList ls)
    {l : Lexeme} (hl : l ∈ ls) : l.span.text? source = some l.token.text := by
  obtain ⟨before, d, ds, after, hsource, hmunch, hspan⟩ := h.exists_of_mem hl
  rw [hspan, hmunch.text]
  exact text?_eq hsource

theorem tiling_scan (source : String) : Tiling [] source.toList (Lexeme.scan source) :=
  tiling_lexemes [] source.toList

/-- What the tokens of a source are. -/
structure Tiles (source : String) (ls : List Lexeme) : Prop where
  /-- The span of a token is not empty. -/
  nonempty : ∀ l ∈ ls, l.span.start < l.span.stop
  /-- Its ends are in the source, between two characters, and the token there is the longest. -/
  munch : ∀ l ∈ ls, ∃ before cs after, source.toList = before ++ cs ++ after ∧
    l.span = ⟨byteLength before, byteLength (before ++ cs)⟩ ∧ Munch l.token cs after
  /-- A token carries the text that its span selects. -/
  text : ∀ l ∈ ls, l.span.text? source = some l.token.text
  /-- A token begins where the one before it has ended. -/
  ordered : ls.Pairwise fun l l' => l.span.stop ≤ l'.span.start
  /-- Between them is space only. -/
  spaces : ∀ before c after, source.toList = before ++ c :: after →
    (∀ l ∈ ls, byteLength before < l.span.start ∨ l.span.stop ≤ byteLength before) →
      c ∈ [' ', '\t', '\n', '\r', '\x0c']

/-- The lexer tiles every source. -/
theorem Lexeme.tiles_scan (source : String) : Tiles source (Lexeme.scan source) := by
  have htiling := tiling_scan source
  constructor
  case nonempty => exact fun l hl => htiling.start_lt_stop hl
  case munch =>
    intro l hl
    obtain ⟨before, d, ds, after, hsource, hmunch, hspan⟩ := htiling.exists_of_mem hl
    exact ⟨before, _, after, hsource, hspan, hmunch⟩
  case text => exact fun l hl => htiling.text? hl
  case ordered => exact htiling.ordered
  case spaces =>
    intro before c after hsource hout
    have hspace : isSpace c := htiling.isSpace_of_not_mem hsource hout
    simpa [isSpace, or_assoc] using hspace

end GenLang
