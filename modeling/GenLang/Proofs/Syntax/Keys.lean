import GenLang.Proofs.Syntax.Spelling
import GenLang.Token.Key

/-!
# What a canonical key tells

A key is read back as the tokens it was made of, since the space behind a token ends it. Only a
string without closing quote reads on, which does no harm where it runs to the end of the source.
But a backslash at the end of a line breaks it off before: in the key there is no line end, and what
stands behind the backslash becomes part of the string.
-/

namespace GenLang

open Text Lexer

/-- The tokens of a source, comments left out. -/
def Token.ofSource (source : String) : List Token :=
  (Lexeme.ofSource source).map (·.token)

/-- Strings without closing quote run to the end: at most a backslash stands behind one. -/
def Token.runOut : List Token → Bool
  | [] => true
  | .unterminated _ :: ts => ts.length ≤ 1
  | _ :: ts => runOut ts

/-! ## Strings and comments -/

/-- A backslash that takes nothing with it stands at the end or in front of a line end. -/
theorem ne_backslash {c : Char} {rest : List Char} (hend : c = '\\' → rest = [] → False)
    (hescape : ∀ d ds, c = '\\' → rest = d :: ds → False) : c ≠ '\\' := by
  rintro rfl
  cases rest with
  | nil => exact hend rfl rfl
  | cons d ds => exact hescape d ds rfl rfl

/-- What is read of a string is read again, up to its end or up to what stands behind. -/
theorem quoted_take (cs tail : List Char) :
    quoted (cs.take (quoted cs).1 ++ tail) =
      if (quoted cs).2 then quoted cs
      else ((quoted cs).1 + (quoted tail).1, (quoted tail).2) := by
  -- Where the string stops without closing quote, none of its characters is left.
  induction cs using quoted.induct with
  | case1 | case3 | case4 => simp [quoted]
  | case2 => rfl
  | case5 c rest hc _ _ _ ih =>
    rw [quoted_escaped hc, List.take_succ_cons, List.take_succ_cons, List.cons_append,
      List.cons_append, quoted_escaped hc, ih]
    split <;> simp; omega
  | case6 c rest hquote hend _ hescape _ _ _ ih =>
    have hslash := ne_backslash hend hescape
    rw [quoted_cons hquote hslash, List.take_succ_cons, List.cons_append,
      quoted_cons hquote hslash, ih]
    split <;> simp; omega

/-- A string without closing quote runs to the end, or up to a backslash. -/
theorem drop_quoted {cs : List Char} (h : (quoted cs).2 = false) :
    cs.drop (quoted cs).1 = [] ∨ ∃ rest, cs.drop (quoted cs).1 = '\\' :: rest := by
  induction cs using quoted.induct with
  | case1 => exact .inl rfl
  | case2 => cases h
  | case3 | case4 => exact .inr ⟨_, rfl⟩
  | case5 c rest hc _ _ _ ih =>
    rw [quoted_escaped hc] at h ⊢
    exact ih h
  | case6 c rest hquote hend _ hescape _ _ _ ih =>
    have hslash := ne_backslash hend hescape
    rw [quoted_cons hquote hslash] at h ⊢
    exact ih h

theorem ne_of_mem_head? {c : Char} {rest : List Char} (h : ∀ ds, rest ≠ c :: ds) :
    ∀ d ∈ rest.head?, d ≠ c := by
  rintro d hd rfl
  obtain ⟨ds, rfl⟩ := List.head?_eq_some_iff.1 hd
  exact h ds rfl

/-- A verbatim string ends where no quote stands behind the closing one. -/
theorem verbatim_take {cs : List Char} (h : (verbatim cs).2) {tail : List Char}
    (htail : ∀ d ∈ tail.head?, d ≠ '"') :
    verbatim (cs.take (verbatim cs).1 ++ tail) = verbatim cs := by
  induction cs using verbatim.induct with
  | case1 => cases h
  | case2 rest _ _ _ ih =>
    rw [verbatim_doubled] at h ⊢
    rw [List.take_succ_cons, List.take_succ_cons, List.cons_append, List.cons_append,
      verbatim_doubled, ih h]
  | case3 rest hrest =>
    -- The quote closes the string before and after, since no other one follows.
    rw [verbatim_quote (ne_of_mem_head? hrest)]
    exact verbatim_quote htail
  | case4 c rest _ hc _ _ _ ih =>
    rw [verbatim_cons hc] at h ⊢
    rw [List.take_succ_cons, List.cons_append, verbatim_cons hc, ih h]

theorem length_verbatim {cs : List Char} (h : (verbatim cs).2 = false) :
    (verbatim cs).1 = cs.length := by
  induction cs using verbatim.induct with
  | case1 => rfl
  | case2 rest _ _ _ ih =>
    rw [verbatim_doubled] at h ⊢
    rw [ih h]
    rfl
  | case3 rest hrest =>
    rw [verbatim] at h
    · cases h
    · exact hrest
  | case4 c rest _ hc _ _ _ ih =>
    rw [verbatim_cons hc] at h ⊢
    rw [ih h]
    rfl

theorem length_blockComment {cs : List Char} (h : (blockComment cs).2 = false) :
    (blockComment cs).1 = cs.length := by
  induction cs using blockComment.induct with
  | case1 => rfl
  | case2 => cases h
  | case3 c rest hc _ _ _ ih =>
    rw [blockComment_cons hc] at h ⊢
    rw [ih h]
    rfl

/-! ## Numbers -/

/-- Nothing stands behind a token, or a space. -/
def Apart (tail : List Char) : Prop :=
  ∀ d ∈ tail.head?, d = ' '

/-- The digits at the front of a text, and what is behind them. -/
theorem exists_digits (rest : List Char) :
    ∃ ds after, rest = ds ++ after ∧ (∀ d ∈ ds, isDigit d) ∧ ∀ d ∈ after.head?, ¬ isDigit d := by
  refine ⟨_, _, List.takeWhile_append_dropWhile.symm, fun d hd => List.mem_takeWhile_imp hd, ?_⟩
  intro d hd
  have hne := List.head?_dropWhile_not isDigit rest
  rw [hd] at hne
  simpa using hne

theorem number_digits {ds tail : List Char} (hds : ∀ d ∈ ds, isDigit d)
    (htail : ∀ d ∈ tail.head?, ¬ isDigit d ∧ d ≠ '.') :
    number (ds ++ tail) = (.int, ds.length) := by
  rw [number, List.takeWhile_append_of_pos hds, List.dropWhile_append_of_pos hds]
  cases tail with
  | nil => simp
  | cons d tail =>
    obtain ⟨hdigit, hpoint⟩ := htail d rfl
    rw [List.takeWhile_cons_of_neg hdigit, List.dropWhile_cons_of_neg hdigit, List.append_nil]
    split
    · next h => exact absurd (List.cons.inj h).1 hpoint
    · rfl

theorem number_point {ds : List Char} (hds : ∀ d ∈ ds, isDigit d) (fraction : List Char) :
    number (ds ++ '.' :: fraction) =
      if (fraction.takeWhile isDigit).length = 0 then (.int, ds.length)
      else (.float, ds.length + 1 + (fraction.takeWhile isDigit).length) := by
  have hpoint : ¬ isDigit '.' := by decide
  rw [number, List.takeWhile_append_of_pos hds, List.dropWhile_append_of_pos hds,
    List.takeWhile_cons_of_neg hpoint, List.dropWhile_cons_of_neg hpoint, List.append_nil]
  rfl

/-- Digits are an integer, if not the whole part of a float. -/
theorem number_cases {ds after : List Char} (hds : ∀ d ∈ ds, isDigit d)
    (hafter : ∀ d ∈ after.head?, ¬ isDigit d) :
    number (ds ++ after) = (.int, ds.length) ∨ ∃ f fs more, after = '.' :: f :: fs ++ more ∧
      (∀ c ∈ f :: fs, isDigit c) ∧
        number (ds ++ after) = (.float, (ds ++ '.' :: f :: fs).length) := by
  by_cases hpoint : ∃ fraction, after = '.' :: fraction
  · obtain ⟨fraction, rfl⟩ := hpoint
    rw [number_point hds]
    have hfraction : fraction.takeWhile isDigit ++ fraction.dropWhile isDigit = fraction :=
      List.takeWhile_append_dropWhile
    cases hplaces : fraction.takeWhile isDigit with
    | nil => exact .inl (if_pos rfl)
    | cons f fs =>
      rw [hplaces] at hfraction
      refine .inr ⟨f, fs, fraction.dropWhile isDigit, congrArg _ hfraction.symm, fun c hc => ?_, ?_⟩
      · rw [← hplaces] at hc
        exact List.mem_takeWhile_imp hc
      · rw [if_neg (by simp), List.length_append, List.length_cons (a := '.'), Nat.add_assoc,
          Nat.add_comm 1]
  · refine .inl (number_digits hds fun d hd => ⟨hafter d hd, ?_⟩)
    exact ne_of_mem_head? (fun fraction h => hpoint ⟨fraction, h⟩) d hd

theorem Apart.not_isDigit {tail : List Char} (h : Apart tail) :
    ∀ d ∈ tail.head?, ¬ isDigit d ∧ d ≠ '.' := by
  intro d hd
  rw [h d hd]
  decide

theorem takeWhile_digits {ds tail : List Char} (hds : ∀ d ∈ ds, isDigit d) (htail : Apart tail) :
    (ds ++ tail).takeWhile isDigit = ds := by
  rw [List.takeWhile_append_of_pos hds]
  cases tail with
  | nil => simp
  | cons d tail => rw [List.takeWhile_cons_of_neg (htail.not_isDigit d rfl).1, List.append_nil]

/-- A number is read again where nothing follows it. -/
theorem number_take (rest : List Char) {tail : List Char} (htail : Apart tail) :
    number (rest.take (number rest).2 ++ tail) = number rest ∧ (number rest).2 ≤ rest.length := by
  obtain ⟨ds, after, rfl, hds, hafter⟩ := exists_digits rest
  rcases number_cases hds hafter with hnumber | ⟨f, fs, more, rfl, hfraction, hnumber⟩
  · rw [hnumber, List.take_left, number_digits hds htail.not_isDigit, List.length_append]
    exact ⟨rfl, Nat.le_add_right _ _⟩
  · rw [hnumber, ← List.append_assoc, List.take_left, List.append_assoc, List.cons_append,
      number_point hds, takeWhile_digits hfraction htail, if_neg (by simp)]
    refine ⟨?_, by simp⟩
    rw [List.length_append, List.length_cons (a := '.'), Nat.add_assoc, Nat.add_comm 1]

/-! ## Symbols -/

theorem ofChars?_text_append (s : Symbol) (rest : List Char) :
    Symbol.ofChars? (s.text.toList ++ rest) ≠ none := by
  -- Behind these, the next character may make another symbol.
  have hlonger (c : Char) (hc : c ∈ ['-', '=', '!', '<', '>']) :
      Symbol.ofChars? (c :: rest) ≠ none := by
    intro h
    unfold Symbol.ofChars? at h
    split at h
    case h_27 hless hgreater hassign hbang _ hminus _ _ _ =>
      simp only [List.mem_cons, List.not_mem_nil, or_false] at hc
      rcases hc with rfl | rfl | rfl | rfl | rfl
      · exact hminus rest rfl
      · exact hassign rest rfl
      · exact hbang rest rfl
      · exact hless rest rfl
      · exact hgreater rest rfl
    all_goals cases h
  cases s
  case minus | assign | bang | less | greater => exact hlonger _ (by decide)
  all_goals nofun

theorem space_not_mem_text (s : Symbol) : ' ' ∉ s.text.toList := by
  cases s <;> decide

/-- A character with which no symbol begins is none by itself. -/
theorem ofChars?_apart {c : Char} {rest tail : List Char} (h : Symbol.ofChars? (c :: rest) = none)
    (htail : Apart tail) : Symbol.ofChars? (c :: tail) = none := by
  cases hsymbol : Symbol.ofChars? (c :: tail) with
  | none => rfl
  | some s =>
    exfalso
    obtain ⟨d, ds, htext, -⟩ := symbol_text s
    have hprefix := prefix_of_ofChars? hsymbol
    rw [htext, List.cons_prefix_cons] at hprefix
    obtain ⟨rfl, hds⟩ := hprefix
    -- A symbol of one character would have been found before, and a longer one holds no space.
    cases ds with
    | nil => exact ofChars?_text_append s rest (by rw [htext]; exact h)
    | cons e es =>
      obtain ⟨after, rfl⟩ := hds
      refine space_not_mem_text s ?_
      rw [htext, ← htail e rfl]
      simp

/-! ## One token -/

/-- A token is what the lexer reads of its text in front of some text. -/
def ReadBefore (t : Token) (tail : List Char) : Prop :=
  ∃ rule c cs, isSpace c = false ∧ Lexer.measure c (cs ++ tail) = (rule, cs.length) ∧
    t.text.toList = c :: cs ∧ rule.token (String.ofList (c :: cs)) = t

theorem map_token_of_readBefore {t : Token} {tail : List Char} (h : ReadBefore t tail)
    (start : Nat) : ∃ stop, (lexemes start (t.text.toList ++ tail)).map (·.token) =
      t :: (lexemes stop tail).map (·.token) := by
  obtain ⟨rule, c, cs, hspace, hmeasure, htext, htoken⟩ := h
  rw [htext, lexemes_cons start hspace hmeasure, List.map_cons, htoken]
  exact ⟨_, rfl⟩

/-- How a token of a source stands in front of what is behind it. -/
inductive Standing (t : Token) : List Char → Prop
  /-- It ends by itself. -/
  | ended {rest} (h : ∀ tail, Apart tail → ReadBefore t tail) (hclosed : ∀ s, t ≠ .unterminated s) :
      Standing t rest
  /-- It runs to the end of the source. -/
  | last (h : ReadBefore t []) : Standing t []
  /-- It is a string that a backslash breaks off. -/
  | broken {s rest} (ht : t = .unterminated s)
      (h : ReadBefore (.unterminated (s ++ " ")) ['\\']) : Standing t ('\\' :: rest)

theorem Rule.text_token {rule : Rule} (h : ∀ s, rule ≠ .symbol s) (text : String) :
    (rule.token text).text = text := by
  cases rule with
  | symbol s => exact absurd rfl (h s)
  | word =>
    simp only [Rule.token]
    split
    · next k hk =>
      have hword := List.find?_some hk
      exact beq_iff_eq.1 hword
    · rfl
  | _ => rfl

theorem readBefore_of_measure {rule : Rule} {c : Char} {cs tail : List Char}
    (hrule : ∀ s, rule ≠ .symbol s) (hspace : isSpace c = false)
    (hmeasure : Lexer.measure c (cs ++ tail) = (rule, cs.length)) :
    ReadBefore (rule.token (String.ofList (c :: cs))) tail :=
  ⟨rule, c, cs, hspace, hmeasure, by rw [Rule.text_token hrule, String.toList_ofList], rfl⟩

section

variable {c : Char} {rest : List Char}

theorem standing_number (hc : isDigit c) :
    Standing ((number rest).1.token (String.ofList (c :: rest.take (number rest).2)))
      (rest.drop (number rest).2) := by
  have hkind : (number rest).1 = .int ∨ (number rest).1 = .float := by
    unfold number
    dsimp only
    split
    · split
      · exact .inl rfl
      · exact .inr rfl
    · exact .inl rfl
  have hspace := isSpace_eq_false (by simp [isWordChar, hc] : isWordChar c)
  refine .ended (fun tail htail => ?_) fun s => ?_
  · obtain ⟨hnumber, hle⟩ := number_take rest htail
    refine readBefore_of_measure ?_ hspace ?_
    · rcases hkind with hkind | hkind <;> simp [hkind]
    · unfold Lexer.measure
      rw [if_pos hc, hnumber, List.length_take_of_le hle]
  · rcases hkind with hkind | hkind <;> simp [hkind, Rule.token]

theorem standing_word (hc : isLetter c) :
    Standing (Rule.word.token (String.ofList (c :: rest.take (rest.takeWhile isWordChar).length)))
      (rest.drop (rest.takeWhile isWordChar).length) := by
  rw [← List.prefix_iff_eq_take.1 (List.takeWhile_prefix isWordChar)]
  have hspace := isSpace_eq_false (by simp [isWordChar, hc] : isWordChar c)
  refine .ended (fun tail htail => ?_) fun s => ?_
  · refine readBefore_of_measure (by simp) hspace (measure_word hc ?_ ?_)
    · exact fun d hd => List.mem_takeWhile_imp hd
    · intro d hd
      rw [htail d hd]
      decide
  · simp only [Rule.token]
    split <;> simp

theorem measure_quote (rest : List Char) :
    Lexer.measure '"' rest =
      (if (quoted rest).2 then .str else .unterminated, (quoted rest).1) := by
  rfl

theorem quoted_le (cs : List Char) : (quoted cs).1 ≤ cs.length := by
  fun_induction quoted cs <;> simp_all

theorem standing_quoted :
    Standing ((if (quoted rest).2 then Rule.str else .unterminated).token
      (String.ofList ('"' :: rest.take (quoted rest).1))) (rest.drop (quoted rest).1) := by
  have hle := List.length_take_of_le (quoted_le rest)
  cases hclosed : (quoted rest).2 with
  | true =>
    refine .ended (fun tail _ => readBefore_of_measure (by simp) (by decide) ?_)
      (by simp [Rule.token])
    rw [measure_quote, quoted_take, if_pos hclosed, hclosed, hle]
  | false =>
    rcases drop_quoted hclosed with hdrop | ⟨after, hdrop⟩
    · rw [hdrop]
      refine .last (readBefore_of_measure (by simp) (by decide) ?_)
      rw [measure_quote, quoted_take, hclosed, hle]
      rfl
    · rw [hdrop]
      refine .broken rfl ?_
      -- In front of the backslash, the space belongs to the string.
      have hspaced : String.ofList ('"' :: rest.take (quoted rest).1) ++ " " =
          String.ofList ('"' :: (rest.take (quoted rest).1 ++ [' '])) := by
        rw [← List.cons_append, String.ofList_append]
      have hmeasure : Lexer.measure '"' (rest.take (quoted rest).1 ++ [' '] ++ ['\\']) =
          (.unterminated, (rest.take (quoted rest).1 ++ [' ']).length) := by
        rw [measure_quote, List.append_assoc, quoted_take, hclosed, List.length_append, hle]
        rfl
      rw [hspaced]
      have hrule : ∀ s, Rule.unterminated ≠ .symbol s := by simp
      have hread := readBefore_of_measure hrule (by decide) hmeasure
      exact hread

theorem measure_verbatim (body : List Char) :
    Lexer.measure '@' ('"' :: body) =
      (if (verbatim body).2 then .verbatim else .unterminated, (verbatim body).1 + 1) := by
  rfl

theorem verbatim_le (cs : List Char) : (verbatim cs).1 ≤ cs.length := by
  fun_induction verbatim cs <;> simp_all

theorem standing_verbatim (body : List Char) :
    Standing ((if (verbatim body).2 then Rule.verbatim else .unterminated).token
      (String.ofList ('@' :: ('"' :: body).take ((verbatim body).1 + 1))))
      (('"' :: body).drop ((verbatim body).1 + 1)) := by
  rw [List.take_succ_cons, List.drop_succ_cons]
  have hle := List.length_take_of_le (verbatim_le body)
  cases hclosed : (verbatim body).2 with
  | true =>
    refine .ended (fun tail htail => readBefore_of_measure (by simp) (by decide) ?_)
      (by simp [Rule.token])
    have hquote : ∀ d ∈ tail.head?, d ≠ '"' := by
      intro d hd
      rw [htail d hd]
      decide
    rw [List.cons_append, measure_verbatim, verbatim_take hclosed hquote, hclosed,
      List.length_cons, hle]
  | false =>
    rw [length_verbatim hclosed, List.take_length, List.drop_length]
    refine .last (readBefore_of_measure (by simp) (by decide) ?_)
    rw [List.append_nil, measure_verbatim, length_verbatim hclosed, hclosed, List.length_cons]

theorem measure_blockComment (body : List Char) :
    Lexer.measure '/' ('*' :: body) =
      (if (blockComment body).2 then .comment else .error, (blockComment body).1 + 1) := by
  rfl

/-- A block comment that is not closed runs to the end. -/
theorem standing_blockComment {body : List Char} (h : (blockComment body).2 = false) :
    Standing (Rule.error.token (String.ofList ('/' :: ('*' :: body).take
      ((blockComment body).1 + 1)))) (('*' :: body).drop ((blockComment body).1 + 1)) := by
  rw [List.take_succ_cons, List.drop_succ_cons, length_blockComment h, List.take_length,
    List.drop_length]
  refine .last (readBefore_of_measure (by simp) (by decide) ?_)
  rw [List.append_nil, measure_blockComment, length_blockComment h, h, List.length_cons]
  rfl

theorem standing_symbol (s : Symbol) : Standing (.symbol s) rest := by
  refine .ended (fun tail htail => ?_) (by simp)
  obtain ⟨d, ds, htext, hspace, -⟩ := symbol_text s
  refine ⟨.symbol s, d, ds, hspace, measure_symbol s htext ?_, htext, rfl⟩
  intro e he
  rw [htail e he]
  decide

theorem measure_error (hdigit : isDigit c = false) (hletter : isLetter c = false)
    (hquote : c ≠ '"') (hsymbol : Symbol.ofChars? (c :: rest) = none) {tail : List Char}
    (htail : Apart tail) : Lexer.measure c tail = (.error, 0) := by
  have hnone := ofChars?_apart hsymbol htail
  unfold Lexer.measure
  rw [if_neg (by simp [hdigit]), if_neg (by simp [hletter]), if_neg hquote]
  split
  · exact absurd (htail '"' rfl) (by decide)
  · exact absurd (htail '/' rfl) (by decide)
  · exact absurd (htail '*' rfl) (by decide)
  · rw [hnone]

/-- Every token but a comment stands by itself, runs to the end or is broken off. -/
theorem standing_of_measure (hspace : isSpace c = false)
    (hcomment : ((Lexer.measure c rest).1.token
      (String.ofList (c :: rest.take (Lexer.measure c rest).2))).isComment = false) :
    Standing ((Lexer.measure c rest).1.token
      (String.ofList (c :: rest.take (Lexer.measure c rest).2)))
      (rest.drop (Lexer.measure c rest).2) := by
  revert hcomment
  cases hdigit : isDigit c with
  | true =>
    unfold Lexer.measure
    rw [if_pos hdigit]
    exact fun _ => standing_number hdigit
  | false =>
  cases hletter : isLetter c with
  | true =>
    unfold Lexer.measure
    rw [if_neg (by simp [hdigit]), if_pos hletter]
    exact fun _ => standing_word hletter
  | false =>
  by_cases hquote : c = '"'
  · subst hquote
    rw [measure_quote]
    exact fun _ => standing_quoted
  unfold Lexer.measure
  rw [if_neg (by simp [hdigit]), if_neg (by simp [hletter]), if_neg hquote]
  split
  · exact fun _ => standing_verbatim _
  · intro hcomment
    cases hcomment
  · next body =>
    -- A closed block comment is a comment; the other one runs to the end.
    change (((if (blockComment body).2 then Rule.comment else .error).token _).isComment = false) →
      Standing ((if (blockComment body).2 then Rule.comment else .error).token _) _
    intro hcomment
    cases hclosed : (blockComment body).2 with
    | true =>
      rw [hclosed] at hcomment
      cases hcomment
    | false => exact standing_blockComment hclosed
  · cases hsymbol : Symbol.ofChars? (c :: rest) with
    | some s => exact fun _ => standing_symbol s
    | none =>
      refine fun _ => .ended (fun tail htail => readBefore_of_measure (by simp) hspace ?_)
        (by simp [Rule.token])
      exact measure_error hdigit hletter hquote hsymbol htail

end

/-! ## All tokens -/

/-- Tokens that are read back one by one, up to one that nothing may follow. -/
inductive Settled : List Token → Prop
  | nil : Settled []
  | cons {t ts} (h : ∀ tail, Apart tail → ReadBefore t tail) (hclosed : ∀ s, t ≠ .unterminated s)
      (hts : Settled ts) : Settled (t :: ts)
  | last {t} (h : ReadBefore t []) : Settled [t]
  | broken {s} (h : ReadBefore (.unterminated (s ++ " ")) ['\\']) :
      Settled [.unterminated s, .error "\\"]

theorem Token.runOut_cons {t : Token} (h : ∀ s, t ≠ .unterminated s) (ts : List Token) :
    runOut (t :: ts) = runOut ts := by
  cases t with
  | unterminated s => exact absurd rfl (h s)
  | _ => rfl

/-- The tokens in a text that stands at byte `start`, comments left out. -/
def tokensAt (start : Nat) (cs : List Char) : List Token :=
  ((lexemes start cs).filter (!·.token.isComment)).map (·.token)

theorem tokensAt_nil (start : Nat) : tokensAt start [] = [] := by
  simp [tokensAt, lexemes]

theorem tokensAt_space {c : Char} (hc : isSpace c) (start : Nat) (rest : List Char) :
    tokensAt start (c :: rest) = tokensAt (start + c.utf8Size) rest := by
  unfold tokensAt
  rw [lexemes, if_pos hc]

theorem tokensAt_cons {c : Char} {rest : List Char} {rule : Rule} {n : Nat}
    (hspace : isSpace c = false) (hmeasure : Lexer.measure c rest = (rule, n)) (start : Nat) :
    tokensAt start (c :: rest) =
      if (rule.token (String.ofList (c :: rest.take n))).isComment then
        tokensAt (start + byteLength (c :: rest.take n)) (rest.drop n)
      else
        rule.token (String.ofList (c :: rest.take n)) ::
          tokensAt (start + byteLength (c :: rest.take n)) (rest.drop n) := by
  unfold tokensAt
  rw [lexemes, if_neg (by simp [hspace]), hmeasure, List.filter_cons]
  dsimp only
  cases (Token.isComment _) <;> rfl

/-- What a backslash begins that nothing else takes is an error. -/
theorem tokensAt_backslash (start : Nat) (rest : List Char) :
    tokensAt start ('\\' :: rest) = .error "\\" :: tokensAt (start + 1) rest :=
  tokensAt_cons (by decide) rfl start

theorem settled_tokensAt (start : Nat) (cs : List Char) :
    Token.runOut (tokensAt start cs) → Settled (tokensAt start cs) := by
  -- The induction follows the lexer: a space, or a lexeme and what stands behind it.
  induction start, cs using lexemes.induct with
  | case1 start =>
    rw [tokensAt_nil]
    exact fun _ => .nil
  | case2 start c rest hc ih =>
    rw [tokensAt_space hc]
    exact ih
  | case3 start c rest hc rule n hmeasure taken stop ih =>
    have hspace := Bool.eq_false_iff.2 hc
    rw [tokensAt_cons hspace hmeasure]
    cases hcomment : (rule.token (String.ofList (c :: rest.take n))).isComment with
    | true => exact ih
    | false =>
      have hstanding := @standing_of_measure c rest hspace
      rw [hmeasure] at hstanding
      intro hout
      generalize rule.token (String.ofList (c :: rest.take n)) = t at *
      generalize rest.drop n = later at *
      cases hstanding hcomment with
      | ended hread hclosed =>
        exact .cons hread hclosed (ih (Token.runOut_cons hclosed _ ▸ hout))
      | last hread =>
        rw [tokensAt_nil]
        exact .last hread
      | @broken s after ht hread =>
        subst ht
        rw [tokensAt_backslash] at hout ⊢
        -- One token may stand behind the string, and the backslash is one.
        have hlength : (tokensAt (stop + 1) after).length + 1 ≤ 1 := of_decide_eq_true hout
        rw [List.length_eq_zero_iff.1 (Nat.le_zero.1 (Nat.le_of_succ_le_succ hlength))]
        exact .broken hread

/-- A string without closing quote that goes on with a space. -/
def Token.spaced : Token → Token
  | .unterminated s => .unterminated (s ++ " ")
  | t => t

theorem Token.spaced_of_ne {t : Token} (h : ∀ s, t ≠ .unterminated s) : t.spaced = t := by
  cases t with
  | unterminated s => exact absurd rfl (h s)
  | _ => rfl

theorem Token.spaced_injective : Function.Injective spaced := by
  intro t u h
  cases t <;> cases u <;> simp_all [spaced]

/-- The tokens that their joined texts are read as: a string that was broken off reaches up to the
backslash, the only token behind it. -/
def reread : List Token → List Token
  | [] => []
  | t :: ts => (if ts.length = 1 then t.spaced else t) :: reread ts

theorem reread_cons {t : Token} (h : ∀ s, t ≠ .unterminated s) (ts : List Token) :
    reread (t :: ts) = t :: reread ts := by
  rw [reread, Token.spaced_of_ne h, ite_self]

theorem reread_injective : Function.Injective reread := by
  intro ts us h
  induction ts generalizing us with
  | nil =>
    cases us with
    | nil => rfl
    | cons => cases h
  | cons t ts ih =>
    cases us with
    | nil => cases h
    | cons u us =>
      obtain ⟨hhead, htail⟩ := List.cons.inj h
      obtain rfl := ih htail
      split at hhead
      · rw [Token.spaced_injective hhead]
      · rw [hhead]

/-- The characters of the tokens' texts, a space between each two. -/
def joined (ts : List Token) : List Char :=
  [' '].intercalate (ts.map (·.text.toList))

theorem joined_singleton (t : Token) : joined [t] = t.text.toList := by
  simp [joined]

theorem joined_cons_cons (t u : Token) (ts : List Token) :
    joined (t :: u :: ts) = t.text.toList ++ ' ' :: joined (u :: ts) := by
  simp [joined, List.intercalate_cons_cons]

theorem map_token_joined {ts : List Token} (h : Settled ts) (start : Nat) :
    (lexemes start (joined ts)).map (·.token) = reread ts := by
  induction h generalizing start with
  | nil =>
    unfold joined reread
    simp [lexemes]
  | @cons t ts hread hclosed _ ih =>
    rw [reread_cons hclosed]
    cases ts with
    | nil =>
      obtain ⟨stop, hstop⟩ := map_token_of_readBefore (hread [] (by simp [Apart])) start
      rw [List.append_nil] at hstop
      rw [joined_singleton, hstop]
      simp [reread, lexemes]
    | cons u us =>
      -- The space between two tokens ends the first one.
      have hapart : Apart (' ' :: joined (u :: us)) := by
        rintro d ⟨⟩
        rfl
      obtain ⟨stop, hstop⟩ := map_token_of_readBefore (hread _ hapart) start
      rw [joined_cons_cons, hstop, lexemes, if_pos (by decide), ih]
  | last hread =>
    obtain ⟨stop, hstop⟩ := map_token_of_readBefore hread start
    rw [List.append_nil] at hstop
    rw [joined_singleton, hstop]
    simp [reread, lexemes]
  | @broken s hread =>
    obtain ⟨stop, hstop⟩ := map_token_of_readBefore hread start
    have htext : joined [.unterminated s, .error "\\"] =
        (Token.unterminated (s ++ " ")).text.toList ++ ['\\'] := by
      simp [joined, Token.text]
    have herror := @lexemes_cons '\\' [] [] _ stop (by decide) rfl
    rw [List.append_nil] at herror
    rw [htext, hstop, herror]
    simp [reread, lexemes, Rule.token, Token.spaced]

theorem toList_canonicalKey (source : String) :
    (canonicalKey source).toList = joined (Token.ofSource source) := by
  simp [canonicalKey, joined, Token.ofSource, String.toList_intercalate, Function.comp_def]

theorem settled_ofSource {source : String} (h : Token.runOut (Token.ofSource source)) :
    Settled (Token.ofSource source) :=
  settled_tokensAt 0 source.toList h

/-- Two sources have the same key exactly where they have the same tokens, provided that no string
of theirs is broken off with more than the backslash behind it. -/
theorem canonicalKey_eq_iff {a b : String} (ha : Token.runOut (Token.ofSource a))
    (hb : Token.runOut (Token.ofSource b)) :
    canonicalKey a = canonicalKey b ↔ Token.ofSource a = Token.ofSource b := by
  constructor
  · intro h
    have hjoined : joined (Token.ofSource a) = joined (Token.ofSource b) := by
      rw [← toList_canonicalKey, ← toList_canonicalKey, h]
    apply reread_injective
    rw [← map_token_joined (settled_ofSource ha) 0, hjoined, map_token_joined (settled_ofSource hb)]
  · intro h
    rw [← String.toList_inj, toList_canonicalKey, toList_canonicalKey, h]

/-- Layout and comments do not count, and a string may be left open at the end. -/
theorem canonicalKey_eq_iff_openString :
    (Token.runOut (Token.ofSource "x=\"a\\") ∧ Token.runOut (Token.ofSource "x = // y\n\"a\\")) ∧
      (canonicalKey "x=\"a\\" = canonicalKey "x = // y\n\"a\\" ↔
        Token.ofSource "x=\"a\\" = Token.ofSource "x = // y\n\"a\\") := by
  have ha : Token.runOut (Token.ofSource "x=\"a\\") := by decide +kernel
  have hb : Token.runOut (Token.ofSource "x = // y\n\"a\\") := by decide +kernel
  exact ⟨⟨ha, hb⟩, canonicalKey_eq_iff ha hb⟩

/-- Two strings without closing quote and a backslash between them share their key with a single
string. -/
theorem canonicalKey_brokenString :
    canonicalKey "\"\\\n\"" = canonicalKey "\" \\ \"" ∧
      Token.ofSource "\"\\\n\"" ≠ Token.ofSource "\" \\ \"" := by
  decide +kernel

end GenLang
