import GenLang.Proofs.Decimal.Shortest
import GenLang.Proofs.Syntax.Lexemes

/-!
# Floats as literals

A double is printed with digits around a point, which the lexer reads as one float. Which double
that denotes depends on its size: a finite double from one ten thousandth on is denoted by its own
text, and so is zero, but smaller doubles are printed as zero, and infinity is printed as a name.
-/

namespace GenLang

namespace Decimal

/-! ## Digits -/

theorem foldl_digits (n : Nat) (cs : List Char) :
    cs.foldl (fun n c => 10 * n + (c.toNat - '0'.toNat)) n =
      n * 10 ^ cs.length + natOfDigits cs := by
  induction cs generalizing n with
  | nil => simp [natOfDigits]
  | cons c cs ih =>
    have hcons : natOfDigits (c :: cs) =
        cs.foldl (fun n c => 10 * n + (c.toNat - '0'.toNat)) (c.toNat - '0'.toNat) := by
      rw [natOfDigits, List.foldl_cons, Nat.mul_zero, Nat.zero_add]
    rw [List.foldl_cons, ih, hcons, ih (c.toNat - '0'.toNat), List.length_cons]
    ring

theorem natOfDigits_append (as bs : List Char) :
    natOfDigits (as ++ bs) = natOfDigits as * 10 ^ bs.length + natOfDigits bs := by
  rw [natOfDigits, List.foldl_append, foldl_digits]
  rfl

theorem natOfDigits_zeros (n : Nat) : natOfDigits (List.replicate n '0') = 0 := by
  induction n with
  | zero => rfl
  | succ n ih => rw [List.replicate_succ', natOfDigits_append, ih]; rfl

theorem digitChars_eq (n : Nat) : digitChars n = (toString n).toList := by
  rw [Nat.toString_eq_repr, Nat.toList_repr, digitChars]

theorem natOfDigits_digitChars (n : Nat) : natOfDigits (digitChars n) = n := by
  rw [digitChars_eq, natOfDigits_toString]

theorem isDigit_digitChars {n : Nat} : ∀ c ∈ digitChars n, Lexer.isDigit c := by
  rw [digitChars_eq]
  exact fun c hc => isDigit_of_mem_toString hc

theorem isDigit_zeros {n : Nat} : ∀ c ∈ List.replicate n '0', Lexer.isDigit c := by
  intro c hc
  rw [List.eq_of_mem_replicate hc]
  decide

/-! ## Texts -/

/-- A text is made of digits, a point and digits, which stand for a number. -/
def Spells (text : String) (x : ℚ) : Prop :=
  ∃ whole fraction, text.toList = whole ++ '.' :: fraction ∧ whole ≠ [] ∧ fraction ≠ [] ∧
    (∀ c ∈ whole ++ fraction, Lexer.isDigit c) ∧
      (natOfDigits (whole ++ fraction) : ℚ) / 10 ^ fraction.length = x

/-- Zeros behind digits, with a point and a zero. -/
theorem spells_whole (n k : Nat) :
    Spells (String.ofList (digitChars n ++ List.replicate k '0') ++ ".0") (n * 10 ^ k) := by
  refine ⟨digitChars n ++ List.replicate k '0', ['0'], by simp, by simp [digitChars], by decide, ?_,
    ?_⟩
  · simp only [List.forall_mem_append]
    exact ⟨⟨isDigit_digitChars, isDigit_zeros⟩, isDigit_zeros (n := 1)⟩
  · rw [natOfDigits_append, natOfDigits_append, natOfDigits_digitChars, natOfDigits_zeros,
      List.length_replicate]
    have hzero : natOfDigits ['0'] = 0 := rfl
    rw [hzero]
    push_cast
    field_simp
    simp

theorem spells_zero : Spells "0.0" 0 := by
  have h := spells_whole 0 0
  rw [Nat.cast_zero, zero_mul] at h
  exact h

/-- A decimal is written with all its digits, and a zero behind the point if none is there. -/
theorem spells_positional (d : Decimal) :
    Spells (String.ofList (positional d) ++ if 0 ≤ d.exponent then ".0" else "") d.toRat := by
  obtain ⟨n, e⟩ := d
  by_cases he : 0 ≤ e
  · obtain ⟨k, rfl⟩ : ∃ k : Nat, e = k := ⟨e.toNat, by omega⟩
    rw [positional, if_pos he, if_pos he, toRat, zpow_natCast]
    exact spells_whole n k
  · obtain ⟨k, rfl⟩ : ∃ k : Nat, e = -k := ⟨(-e).toNat, by omega⟩
    rw [positional, if_neg he, if_neg he]
    dsimp only
    rw [neg_neg, Int.toNat_natCast]
    -- Zeros are put in front, so that at least one digit is before the point.
    generalize hcs : List.replicate (k + 1 - (digitChars n).length) '0' ++ digitChars n = cs
    have hlength : k + 1 ≤ cs.length := by
      rw [← hcs, List.length_append, List.length_replicate]
      omega
    have hdigits : ∀ c ∈ cs, Lexer.isDigit c := by
      rw [← hcs, List.forall_mem_append]
      exact ⟨isDigit_zeros, isDigit_digitChars⟩
    have hvalue : natOfDigits cs = n := by
      rw [← hcs, natOfDigits_append, natOfDigits_zeros, natOfDigits_digitChars, Nat.zero_mul,
        Nat.zero_add]
    refine ⟨cs.take (cs.length - k), cs.drop (cs.length - k), by simp, ?_, ?_, ?_, ?_⟩
    · rw [ne_eq, List.take_eq_nil_iff, ← List.length_eq_zero_iff]
      omega
    · rw [ne_eq, List.drop_eq_nil_iff]
      omega
    · rwa [List.take_append_drop]
    · rw [List.take_append_drop, hvalue, List.length_drop, toRat, zpow_neg, zpow_natCast]
      have hk : cs.length - (cs.length - k) = k := by omega
      rw [hk, div_eq_mul_inv]

/-- The text is one float to the lexer. -/
theorem Spells.tokens {text : String} {x : ℚ} (h : Spells text x) :
    (Lexeme.scan text).map (·.token) = [.float text] := by
  obtain ⟨whole, fraction, htext, hwhole, hfraction, hdigits, -⟩ := h
  obtain ⟨w, ws, rfl⟩ := List.exists_cons_of_ne_nil hwhole
  rw [List.forall_mem_append, List.forall_mem_cons] at hdigits
  obtain ⟨⟨hw, hws⟩, hfs⟩ := hdigits
  have hmeasure : Lexer.measure w ((ws ++ '.' :: fraction) ++ []) =
      (.float, (ws ++ '.' :: fraction).length) := by
    have hplaces : fraction.takeWhile Lexer.isDigit = fraction := List.takeWhile_eq_self_iff.2 hfs
    rw [List.append_nil, measure_digit hw, number_point hws, hplaces,
      if_neg (by simpa using hfraction), List.length_append, List.length_cons]
    congr 1
    omega
  have hspace := isSpace_eq_false (by simp [Lexer.isWordChar, hw] : Lexer.isWordChar w)
  have hscan := lexemes_cons 0 hspace hmeasure
  rw [List.append_nil, ← List.cons_append, ← htext, String.ofList_toList] at hscan
  rw [Lexeme.scan, hscan, Lexer.lexemes]
  rfl

/-- The lexer's float is read as the double that is nearest to the number. -/
theorem Spells.read {text : String} {x : ℚ} (h : Spells text x) :
    ∃ num den : Nat, 0 < den ∧ (num / den : ℚ) = x ∧
      Decimal.read text = Binary64.nearest false num den := by
  obtain ⟨whole, fraction, htext, -, -, hdigits, hx⟩ := h
  refine ⟨natOfDigits (whole ++ fraction), Nat.pow 10 fraction.length, Nat.pow_pos (by decide),
    ?_, ?_⟩
  · rw [← hx]
    simp only [Nat.pow_eq]
    norm_cast
  · have hpoint : ∀ c ∈ whole, (c != '.') = true := by
      intro c hc
      have hdigit := hdigits c (List.mem_append_left _ hc)
      rw [bne_iff_ne]
      rintro rfl
      revert hdigit
      decide
    rw [Decimal.read, htext, List.takeWhile_append_of_pos hpoint,
      List.dropWhile_append_of_pos hpoint]
    simp

/-! ## What is printed -/

section

open Binary64

variable {x : Float} {m : Nat} {e : Int}

theorem value_scale (m : Nat) (e : Int) :
    ((scale m 1 (-e)).1 : ℚ) / (scale m 1 (-e)).2 = m * 2 ^ e := by
  rw [scale_eq, zpow_neg, Nat.cast_one, div_one, div_inv_eq_mul]

/-- The text of a double that is not zero, by its size. -/
theorem literal_finite (hx : ofFloat x = .finite false m e) (hm : m ≠ 0) :
    literal x =
      if (m * 2 ^ e : ℚ) < 1 / 10 ^ 4 then "0.0"
      else if (10 : ℚ) ^ 16 ≤ m * 2 ^ e then
        toString ((scale m 1 (-e)).1 / (scale m 1 (-e)).2) ++ ".0"
      else
        String.ofList (positional (shortest m e)) ++
          if 0 ≤ (shortest m e).exponent then ".0" else "" := by
  have hden : (0 : ℚ) < (scale m 1 (-e)).2 := by
    exact_mod_cast scale_pos Nat.one_pos m (-e)
  have hsmall : (m * 2 ^ e : ℚ) < 1 / 10 ^ 4 ↔
      (scale m 1 (-e)).1 * 10000 < (scale m 1 (-e)).2 := by
    rw [← value_scale, div_lt_div_iff₀ hden (by norm_num), one_mul]
    norm_cast
  have hlarge : (10 : ℚ) ^ 16 ≤ m * 2 ^ e ↔
      Nat.pow 10 16 * (scale m 1 (-e)).2 ≤ (scale m 1 (-e)).1 := by
    rw [← value_scale, le_div_iff₀ hden]
    norm_cast
  unfold literal
  rw [hx]
  simp only [hm, if_false, Bool.false_eq_true, String.empty_append, hsmall, hlarge]

theorem exponent_pos (hfinite : IsFinite m e) (h : (10 : ℚ) ^ 16 ≤ m * 2 ^ e) : 0 < e := by
  by_contra he
  have hpow : (2 : ℚ) ^ e ≤ 1 := zpow_le_one_of_nonpos₀ one_le_two (not_lt.1 he)
  have hm' := hfinite.cast_lt
  have hle : (m * 2 ^ e : ℚ) ≤ m := mul_le_of_le_one_right (Nat.cast_nonneg m) hpow
  norm_num at h
  linarith

theorem spells_large (hx : ofFloat x = .finite false m e) (hfinite : IsFinite m e) (hm : m ≠ 0)
    (h : (10 : ℚ) ^ 16 ≤ m * 2 ^ e) : Spells (literal x) (m * 2 ^ e) := by
  have he := exponent_pos hfinite h
  obtain ⟨k, rfl⟩ : ∃ k : Nat, e = k := ⟨e.toNat, by omega⟩
  have hscale : scale m 1 (-k) = (m * Nat.pow 2 k, 1) := by
    unfold scale
    rw [if_pos (by omega), neg_neg, Int.toNat_natCast]
  rw [literal_finite hx hm, if_neg (not_lt.2 (le_trans (by norm_num) h)), if_pos h, hscale]
  have hspells := spells_whole (m * Nat.pow 2 k) 0
  rw [pow_zero, mul_one, List.replicate_zero, List.append_nil] at hspells
  rw [digitChars_eq, String.ofList_toList] at hspells
  rw [Nat.div_one, zpow_natCast]
  simpa using hspells

/-- Doubles of these sizes have mantissas of 53 bits, and few exponents. -/
theorem exponent_bounds (hfinite : IsFinite m e) (h : (1 : ℚ) / 10 ^ 4 ≤ m * 2 ^ e) :
    Binary64.hidden ≤ m ∧ -66 ≤ e ∧ ((m * 2 ^ e : ℚ) < 10 ^ 16 → e ≤ 1) := by
  have hm' := hfinite.cast_lt
  have hleast : -66 ≤ e := by
    by_contra he
    have hpow : (2 : ℚ) ^ e ≤ 2 ^ (-67 : Int) := zpow_le_zpow_right₀ one_le_two (by omega)
    have hpos : (0 : ℚ) < 2 ^ e := by positivity
    norm_num at h hpow
    nlinarith
  have hm : Binary64.hidden ≤ m := by
    rcases hfinite.normal with hlow | rfl
    · exact hlow
    · omega
  refine ⟨hm, hleast, fun hlarge => ?_⟩
  by_contra he
  have hpow : (2 : ℚ) ^ (2 : Int) ≤ 2 ^ e := zpow_le_zpow_right₀ one_le_two (by omega)
  have hm'' : (4503599627370496 : ℚ) ≤ m := by
    have hnat : 4503599627370496 ≤ m := hm
    exact_mod_cast hnat
  norm_num at hlarge hpow
  nlinarith

/-- A double that is not too small is written as a number that is rounded to it. -/
theorem spells_literal (hx : ofFloat x = .finite false m e) (hfinite : IsFinite m e) (hm : m ≠ 0)
    (h : (1 : ℚ) / 10 ^ 4 ≤ m * 2 ^ e) :
    ∃ y, Spells (literal x) y ∧ (Interval.of m e).Contains y := by
  by_cases hlarge : (10 : ℚ) ^ 16 ≤ m * 2 ^ e
  · exact ⟨_, spells_large hx hfinite hm hlarge, Interval.contains_middle (Nat.pos_of_ne_zero hm) e⟩
  · obtain ⟨hm', he, he'⟩ := exponent_bounds hfinite h
    refine ⟨_, ?_, contains_shortest hm' hfinite.lt he (he' (not_le.1 hlarge))⟩
    rw [literal_finite hx hm, if_neg (not_lt.2 h), if_neg hlarge]
    exact spells_positional _

theorem literal_infinite (hx : ofFloat x = .infinite false) : literal x = "inf" := by
  rw [literal, hx]
  rfl

theorem literal_zero (hx : ofFloat x = .finite false 0 e) : literal x = "0.0" := by
  rw [literal, hx]
  rfl

theorem literal_small (hx : ofFloat x = .finite false m e) (hm : m ≠ 0)
    (h : (m * 2 ^ e : ℚ) < 1 / 10 ^ 4) : literal x = "0.0" := by
  rw [literal_finite hx hm, if_pos h]

/-- A number in the interval of a double is read as the double. -/
theorem Spells.bits {text : String} {y : ℚ} (h : Spells text y) (hfinite : IsFinite m e)
    (hlow : Binary64.hidden ≤ m) (hy : (Interval.of m e).Contains y) :
    (Decimal.read text).toBits.toNat = bitsOf m e := by
  obtain ⟨num, den, hden, rfl, hread⟩ := h.read
  rw [hread, toNat_toBits_nearest, nearestBits_of_contains hfinite hlow hden hy]

theorem Spells.bits_zero {text : String} (h : Spells text 0) :
    (Decimal.read text).toBits.toNat = 0 := by
  obtain ⟨num, den, hden, hvalue, hread⟩ := h.read
  have hnum : num = 0 := by
    have hden' : (den : ℚ) ≠ 0 := by exact_mod_cast hden.ne'
    simpa [hden'] using hvalue
  rw [hread, toNat_toBits_nearest, hnum]
  rfl

end

theorem Spells.startsWith_minus {text : String} {y : ℚ} (h : Spells text y) :
    text.startsWith "-" = false := by
  obtain ⟨whole, fraction, htext, hwhole, -, hdigits, -⟩ := h
  obtain ⟨w, ws, rfl⟩ := List.exists_cons_of_ne_nil hwhole
  rw [String.startsWith_string_eq_false_iff, htext]
  rintro ⟨rest, hrest⟩
  obtain rfl : '-' = w := (List.cons.inj hrest).1
  have hminus := hdigits '-' (by simp)
  revert hminus
  decide

end Decimal

/-! ## Literals -/

/-- The text that a literal is printed as. -/
def Literal.text (l : Literal) : String :=
  String.join ((Printer.literal l).map Piece.text)

/-- A text is one float and nothing else to the lexer, and denotes the double of some bits. -/
def Token.Denotes (text : String) (bits : UInt64) : Prop :=
  (Lexeme.scan text).map (·.token) = [.float text] ∧ (Decimal.read text).toBits = bits

instance (text : String) (bits : UInt64) : Decidable (Token.Denotes text bits) :=
  inferInstanceAs (Decidable (_ ∧ _))

/-- A double is zero, or finite and at least one ten thousandth. -/
def Decimal.HasLiteral (x : Float) : Prop :=
  ∃ m e, Binary64.ofFloat x = .finite false m e ∧ (m = 0 ∨ (1 : ℚ) / 10 ^ 4 ≤ m * 2 ^ e)

open Decimal

section

variable {x : Float} {m : Nat} {e : Int}

theorem hasLiteral_iff (hx : Binary64.ofFloat x = .finite false m e) :
    HasLiteral x ↔ m = 0 ∨ (1 : ℚ) / 10 ^ 4 ≤ m * 2 ^ e := by
  constructor
  · rintro ⟨m', e', hx', h⟩
    rw [hx] at hx'
    cases hx'
    exact h
  · exact fun h => ⟨m, e, hx, h⟩

theorem Literal.text_float (h : (literal x).startsWith "-" = false) :
    (Literal.float x).text = literal x := by
  simp [Literal.text, Printer.literal, h, Piece.text, Token.text]

theorem Literal.text_eq_zero (h : literal x = "0.0") : (Literal.float x).text = "0.0" := by
  rw [text_float, h]
  rw [h]
  exact spells_zero.startsWith_minus

theorem Token.denotes_zero_iff {bits : UInt64} : Denotes "0.0" bits ↔ bits.toNat = 0 := by
  have hread : (Decimal.read "0.0").toBits = 0 := UInt64.toNat_inj.1 spells_zero.bits_zero
  rw [Denotes, hread, ← UInt64.toNat_inj, UInt64.toNat_zero, eq_comm (a := 0)]
  exact and_iff_right spells_zero.tokens

/-- The text of a finite double, by its size. -/
theorem denotes_finite (hx : Binary64.ofFloat x = .finite false m e)
    (hfinite : Binary64.IsFinite m e) (hbits : x.toBits.toNat = Binary64.bitsOf m e) :
    (Token.Denotes (Literal.float x).text x.toBits ↔ HasLiteral x) ∧
      (HasLiteral x ∨
        m ≠ 0 ∧ (m * 2 ^ e : ℚ) < 1 / 10 ^ 4 ∧ (Literal.float x).text = "0.0") := by
  rw [hasLiteral_iff hx]
  by_cases hm : m = 0
  · subst hm
    have hleast : e = -1074 := hfinite.normal.resolve_left (by decide)
    subst hleast
    rw [Literal.text_eq_zero (literal_zero hx), Token.denotes_zero_iff, hbits]
    exact ⟨iff_of_true rfl (.inl rfl), .inl (.inl rfl)⟩
  by_cases h : (1 : ℚ) / 10 ^ 4 ≤ m * 2 ^ e
  -- The number that is printed need not be the double, but is rounded to it.
  · obtain ⟨y, hspells, hy⟩ := spells_literal hx hfinite hm h
    have hnormal := (exponent_bounds hfinite h).1
    rw [Literal.text_float hspells.startsWith_minus]
    refine ⟨iff_of_true ⟨hspells.tokens, UInt64.toNat_inj.1 ?_⟩ (.inr h), .inl (.inr h)⟩
    rw [hspells.bits hfinite hnormal hy, hbits]
  · have hsmall := not_le.1 h
    have hzero := Literal.text_eq_zero (literal_small hx hm hsmall)
    rw [hzero, Token.denotes_zero_iff, hbits]
    have hne : Binary64.bitsOf m e ≠ 0 := by
      rw [Binary64.bitsOf]
      omega
    exact ⟨iff_of_false hne (not_or.2 ⟨hm, h⟩), .inr ⟨hm, hsmall, rfl⟩⟩

end

theorem Literal.text_eq_inf {x : Float} (hx : Binary64.ofFloat x = .infinite false) :
    (Literal.float x).text = "inf" := by
  have htext := literal_infinite hx
  rw [text_float, htext]
  rw [htext, String.startsWith_string_eq_false_iff]
  decide

/-- What a float denotes is printed as a text that denotes it, if it is finite and not too small.
Smaller doubles are printed as zero, and one that is too large as a name. -/
theorem denotes_text_iff (text : String) :
    let x := Decimal.read text
    let printed := (Literal.float x).text
    (Token.Denotes printed x.toBits ↔ HasLiteral x) ∧
      (HasLiteral x ∨
        (∃ m e, Binary64.ofFloat x = .finite false m e ∧ m ≠ 0 ∧
          (m * 2 ^ e : ℚ) < 1 / 10 ^ 4 ∧ printed = "0.0") ∨
        Binary64.ofFloat x = .infinite false ∧ printed = "inf" ∧
          (Lexeme.scan printed).map (·.token) = [.ident "inf"]) := by
  intro x printed
  obtain ⟨num, den, hread⟩ : ∃ num den, x = Binary64.nearest false num den := ⟨_, _, rfl⟩
  have hbits : x.toBits.toNat = Binary64.nearestBits num den := by
    rw [hread, Binary64.toNat_toBits_nearest]
  have hx : Binary64.ofFloat x = Binary64.ofBits (Binary64.nearestBits num den) := by
    rw [Binary64.ofFloat, hbits]
  -- What is read is rounded to a finite double or to infinity, and has no sign.
  rcases (Binary64.nearestBits_le num den).lt_or_eq with hlt | heq
  · obtain ⟨m, e, hvalue, hfinite, hb⟩ := Binary64.ofBits_of_lt hlt
    rw [hvalue] at hx
    rw [hb] at hbits
    obtain ⟨hiff, hsize⟩ := denotes_finite hx hfinite hbits
    exact ⟨hiff, hsize.imp_right fun hsmall => .inl ⟨m, e, hx, hsmall⟩⟩
  · rw [heq, Binary64.ofBits_infinity] at hx
    have hprinted : printed = "inf" := Literal.text_eq_inf hx
    have hname : (Lexeme.scan printed).map (·.token) = [.ident "inf"] := by
      rw [hprinted]
      decide +kernel
    refine ⟨iff_of_false ?_ ?_, .inr (.inr ⟨hx, hprinted, hname⟩)⟩
    · rintro ⟨htokens, -⟩
      rw [hname] at htokens
      cases htokens
    · rintro ⟨m, e, hx', -⟩
      rw [hx] at hx'
      cases hx'

/-- One hundred thousandth is printed as zero. -/
theorem hundred_thousandth_printed_zero :
    Token.Denotes "0.00001" 0x3ee4f8b588e368f1 ∧
      (Literal.float (Decimal.read "0.00001")).text = "0.0" ∧
      ¬ Token.Denotes (Literal.float (Decimal.read "0.00001")).text
        (Decimal.read "0.00001").toBits := by
  decide +kernel

end GenLang
