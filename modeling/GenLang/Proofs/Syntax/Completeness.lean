import GenLang.Proofs.Syntax.Soundness

/-!
# What is in the grammar is read

A reader takes as much as it can, so a phrase is read only where what follows does not go on with
it. That condition is about one token, which is all a reader looks at. The other condition is about
the bound on repetitions and nesting: it has to be above the number of tokens in the phrase.

The grammar groups postfixes and binary operators to the left while the readers loop, so these two
are proved about what is still to be read: if the loop gives a result from a phrase already read, it
gives the same one from the start of the phrase.
-/

namespace GenLang

open Text

theorem BinaryOp.precedence_pos (op : BinaryOp) : 1 ≤ op.precedence := by
  cases op <;> decide

theorem BinaryOp.precedence_le (op : BinaryOp) : op.precedence ≤ 6 := by
  cases op <;> decide

namespace Parse

open Grammar

variable {α β : Type}

/-! ## Steps of a reader -/

theorem Reads.bind {p : Parse α} {f : α → Parse β} {ts a mid b rest} (hp : Reads p ts a mid)
    (hf : Reads (f a) mid b rest) : Reads (p >>= f) ts b rest :=
  reads_bind.2 ⟨a, mid, hp, hf⟩

theorem reads_pure_self (a : α) (ts : List Lexeme) : Reads (pure a) ts a ts :=
  reads_pure.2 ⟨rfl, rfl⟩

theorem reads_peek_self (ts : List Lexeme) : Reads peek ts (ts.head?.map (·.token)) ts :=
  reads_peek.2 ⟨rfl, rfl⟩

@[simp] theorem clear_nil (f : Token → Bool) : Clear f [] := by
  simp [Clear]

@[simp] theorem clear_cons {f : Token → Bool} {t : Lexeme} {ts : List Lexeme} :
    Clear f (t :: ts) ↔ f t.token = false := by
  simp [Clear]

theorem clear_false (ts : List Lexeme) : Clear (fun _ => false) ts :=
  fun _ _ => Bool.false_ne_true

theorem Clear.mono {f g : Token → Bool} {ts : List Lexeme} (hg : Clear g ts)
    (hfg : ∀ t, f t → g t) : Clear f ts :=
  fun t ht hf => hg t ht (hfg _ hf)

theorem Clear.not_next {f : Token → Bool} {t : Token} {ts : List Lexeme} (h : Clear f ts)
    (ht : f t) : ¬ Next t ts := by
  intro hn
  obtain ⟨u, hu, rfl⟩ := Option.map_eq_some_iff.1 hn
  exact h u hu ht

theorem reads_symbol?_none {s : Symbol} {ts : List Lexeme} (h : Clear (· == .symbol s) ts) :
    Reads (symbol? s) ts none ts :=
  reads_symbol?.2 (.inr ⟨rfl, rfl, h.not_next (by simp)⟩)

theorem reads_keyword?_none {k : Keyword} {ts : List Lexeme} (h : Clear (· == .keyword k) ts) :
    Reads (keyword? k) ts none ts :=
  reads_keyword?.2 (.inr ⟨rfl, rfl, h.not_next (by simp)⟩)

/-! ## Pieces of rules -/

/-- A reader takes any phrase of at most `n` tokens off the front, unless the next token satisfies
the test. -/
def Complete (p : Parse α) (P : Phrase α) (n : Nat) (f : Token → Bool) : Prop :=
  ∀ ⦃us a⦄, P us a → us.length ≤ n → ∀ ⦃rest⦄, Clear f rest → Reads p (us ++ rest) a rest

theorem Complete.of_le {p : Parse α} {P : Phrase α} {m n : Nat} {f : Token → Bool}
    (hp : Complete p P n f) (hm : m ≤ n) : Complete p P m f :=
  fun _ _ h hlen => hp h (hlen.trans hm)

/-- The first token of a phrase satisfies the test. -/
def Begins (starts : Token → Bool) (ts : List Lexeme) : Prop :=
  ∃ t us, ts = t :: us ∧ starts t.token

theorem Begins.append {starts : Token → Bool} {ts : List Lexeme} (h : Begins starts ts)
    (us : List Lexeme) : Begins starts (ts ++ us) := by
  obtain ⟨t, vs, rfl, ht⟩ := h
  exact ⟨t, vs ++ us, rfl, ht⟩

theorem Begins.clear {starts f : Token → Bool} {ts : List Lexeme} (h : Begins starts ts)
    (hf : ∀ t, starts t → f t = false) : Clear f ts := by
  obtain ⟨t, us, rfl, ht⟩ := h
  rw [clear_cons]
  exact hf _ ht

theorem Begins.length_pos {starts : Token → Bool} {ts : List Lexeme} (h : Begins starts ts) :
    0 < ts.length := by
  obtain ⟨t, us, rfl, -⟩ := h
  simp

theorem complete_ident (n : Nat) (f : Token → Bool) : Complete ident IsName n f := by
  rintro _ _ ⟨i⟩ - rest -
  exact reads_ident.2 rfl

theorem reads_after?_some {p : Parse α} {s : Symbol} {place : Span} {ts a rest}
    (h : Reads p ts a rest) : Reads (after? s p) (sym s place :: ts) (some a) rest :=
  (reads_symbol?.2 (.inl ⟨place, rfl, rfl⟩)).bind (h.bind (reads_pure_self _ _))

theorem reads_after?_none {p : Parse α} {s : Symbol} {ts : List Lexeme}
    (h : Clear (· == .symbol s) ts) : Reads (after? s p) ts none ts :=
  (reads_symbol?_none h).bind (reads_pure_self _ _)

theorem Complete.after? {p : Parse α} {P : Phrase α} {n : Nat} {f : Token → Bool}
    (hp : Complete p P n f) (s : Symbol) :
    Complete (after? s p) (Optional (After P s)) n (fun t => t == .symbol s || f t) := by
  intro us a h hlen rest hrest
  cases h with
  | none => exact reads_after?_none (hrest.mono (by simp +contextual))
  | some item =>
    cases item with
    | mk item =>
      rw [List.length_cons] at hlen
      exact reads_after?_some (hp item (by omega) (hrest.mono (by simp +contextual)))

theorem reads_when?_some {p : Parse α} {starts : Token → Bool} {ts a rest}
    (hts : Begins starts ts) (hp : Reads p ts a rest) :
    Reads (when? starts p) ts (some a) rest := by
  obtain ⟨t, us, rfl, ht⟩ := hts
  refine (reads_peek_self _).bind ?_
  simp only [List.head?_cons, Option.map_some, ht, if_true]
  exact hp.bind (reads_pure_self _ _)

theorem reads_when?_none {p : Parse α} {starts : Token → Bool} {ts : List Lexeme}
    (hts : Clear starts ts) : Reads (when? starts p) ts none ts := by
  refine (reads_peek_self _).bind ?_
  cases ts with
  | nil => exact reads_pure_self _ _
  | cons t ts =>
    rw [clear_cons] at hts
    simp only [List.head?_cons, Option.map_some, hts, Bool.false_eq_true, if_false]
    exact reads_pure_self _ _

section

variable {p : Parse α} {P : Phrase α} {n : Nat} {f starts : Token → Bool}
  (hp : Complete p P n f) (hP : ∀ {us a}, P us a → Begins starts us)

include hp hP

theorem Complete.when? :
    Complete (when? starts p) (Optional P) n (fun t => starts t || f t) := by
  intro us a h hlen rest hrest
  cases h with
  | none => exact reads_when?_none (hrest.mono (by simp +contextual))
  | some item =>
    have hread := hp item hlen (hrest.mono (by simp +contextual))
    exact reads_when?_some ((hP item).append _) hread

theorem Complete.many (hf : ∀ t, starts t → f t = false) {k : Nat} (hk : n ≤ k) :
    Complete (many starts p k) (Many P) n (fun t => starts t || f t) := by
  intro us as h hlen
  replace hk := hlen.trans hk
  induction h generalizing k with
  | nil =>
    intro rest hrest
    cases k with
    | zero => exact reads_pure_self _ _
    | succ k =>
      exact (reads_when?_none (hrest.mono (by simp +contextual))).bind (reads_pure_self _ _)
  | @cons ts us a as first others ih =>
    intro rest hrest
    have hpos := (hP first).length_pos
    rw [List.length_append] at hlen hk
    obtain ⟨k, rfl⟩ : ∃ j, k = j + 1 := ⟨k - 1, by omega⟩
    -- What follows an item is another one or what follows them all, and neither makes it longer.
    have hclear : Clear f (us ++ rest) := by
      cases others with
      | nil => exact hrest.mono (by simp +contextual)
      | cons next _ => exact (((hP next).append _).append _).clear hf
    have hfirst := hp first (by omega) hclear
    have hothers := ih (k := k) (by omega) (by omega) hrest
    rw [List.append_assoc]
    exact (reads_when?_some ((hP first).append _) hfirst).bind (hothers.bind (reads_pure_self _ _))

theorem Complete.commaList (hf : f (.symbol .comma) = false) {k : Nat} (hk : n ≤ k) :
    Complete (commaList starts p k) (CommaList P) n
      (fun t => starts t || t == .symbol .comma || f t) := by
  intro us as h hlen
  replace hk := hlen.trans hk
  induction h generalizing k with
  | nil =>
    intro rest hrest
    cases k with
    | zero => exact reads_pure_self _ _
    | succ k =>
      exact (reads_when?_none (hrest.mono (by simp +contextual))).bind (reads_pure_self _ _)
  | @one ts a item =>
    intro rest hrest
    have hpos := (hP item).length_pos
    obtain ⟨k, rfl⟩ : ∃ j, k = j + 1 := ⟨k - 1, by omega⟩
    have hitem := hp item hlen (hrest.mono (by simp +contextual))
    refine (reads_when?_some ((hP item).append _) hitem).bind ?_
    exact (reads_symbol?_none (hrest.mono (by simp +contextual))).bind (reads_pure_self _ _)
  | @cons ts c us a as first others ih =>
    intro rest hrest
    simp only [List.length_append, List.length_cons] at hlen hk
    obtain ⟨k, rfl⟩ : ∃ j, k = j + 1 := ⟨k - 1, by omega⟩
    have hothers := ih (k := k) (by omega) (by omega) hrest
    rw [List.append_assoc, List.cons_append]
    -- an item ends at a comma, whatever else it could go on with
    have hcomma : Clear f (sym .comma c :: (us ++ rest)) := clear_cons.2 hf
    have hfirst := hp first (by omega) hcomma
    refine (reads_when?_some ((hP first).append _) hfirst).bind ?_
    refine (reads_symbol?.2 (.inl ⟨c, rfl, rfl⟩)).bind ?_
    exact hothers.bind (reads_pure_self _ _)

end

theorem Complete.commaList1 {p : Parse α} {P : Phrase α} {n : Nat} {f : Token → Bool}
    (hp : Complete p P n f) (hf : f (.symbol .comma) = false) {k : Nat} (hk : n < k) :
    Complete (commaList1 p k) (CommaList1 P) n (fun t => t == .symbol .comma || f t) := by
  intro us as h hlen
  replace hk := hlen.trans_lt hk
  induction h generalizing k with
  | @one ts a item =>
    intro rest hrest
    obtain ⟨k, rfl⟩ : ∃ j, k = j + 1 := ⟨k - 1, by omega⟩
    have hitem := hp item hlen (hrest.mono (by simp +contextual))
    refine hitem.bind ?_
    exact (reads_symbol?_none (hrest.mono (by simp +contextual))).bind (reads_pure_self _ _)
  | @cons ts c us a as first others ih =>
    intro rest hrest
    simp only [List.length_append, List.length_cons] at hlen hk
    obtain ⟨k, rfl⟩ : ∃ j, k = j + 1 := ⟨k - 1, by omega⟩
    have hothers := ih (k := k) (by omega) (by omega) hrest
    rw [List.append_assoc, List.cons_append]
    have hcomma : Clear f (sym .comma c :: (us ++ rest)) := clear_cons.2 hf
    have hfirst := hp first (by omega) hcomma
    refine hfirst.bind ((reads_symbol?.2 (.inl ⟨c, rfl, rfl⟩)).bind ?_)
    exact hothers.bind (reads_pure_self _ _)

/-! ## Expressions -/

theorem begins_literal {t : Token} {l : Literal} (h : LiteralOf t l) : startsExpr t := by
  cases h <;> rfl

theorem begins_expr {p : Nat} {ts : List Lexeme} {e : Expr} (h : IsExpr p ts e) :
    Begins startsExpr ts := by
  induction h using IsExpr.induct with
  | lit value => exact ⟨_, [], rfl, begins_literal value⟩
  | name | self => exact ⟨_, [], rfl, rfl⟩
  | paren | list | new | not | neg | await => exact ⟨_, _, rfl, rfl⟩
  | tighter _ _ ih => exact ih
  | member _ ih | binary _ _ ih => exact ih.append _
  | call _ _ ih | index _ _ ih =>
    rw [List.append_assoc]
    exact ih.append _

/-- Whether an expression of a level can go on with the token. -/
def continues (p : Nat) : Token → Bool
  | .symbol .dot | .symbol .leftParen | .symbol .leftBracket => true
  | .symbol s => (BinaryOp.ofSymbol? s).any (p ≤ ·.precedence)
  | _ => false

theorem continues_operator (p : Nat) (op : BinaryOp) :
    continues p (.symbol op.symbol) = decide (p ≤ op.precedence) := by
  cases op <;> rfl

theorem continues_mono {p q : Nat} (hpq : p ≤ q) (t : Token) (h : continues q t) :
    continues p t := by
  cases t with
  | symbol s =>
    cases s <;> simp_all only [continues, BinaryOp.ofSymbol?, Option.any_some, Option.any_none,
      decide_eq_true_eq]
    all_goals omega
  | _ => cases h

/-- A phrase of level 8 does not begin as one of level 7 does. -/
theorem begins_postfix {ts : List Lexeme} {e : Expr} (h : IsExpr 8 ts e) :
    Begins (fun t => t != .symbol .bang && t != .symbol .minus && t != .keyword .await) ts := by
  generalize hp : 8 = p at h
  have hp' : 8 ≤ p := by omega
  clear hp
  induction h using IsExpr.induct with
  | @lit t _ value =>
    refine ⟨t, [], rfl, ?_⟩
    generalize t.token = token at value
    cases value <;> rfl
  | name | self => exact ⟨_, [], rfl, rfl⟩
  | paren | list | new => exact ⟨_, _, rfl, rfl⟩
  | not | neg | await => omega
  | @binary op =>
    have := op.precedence_le
    omega
  | tighter _ _ ih => exact ih (by omega)
  | member _ ih => exact (ih hp').append _
  | call _ _ ih | index _ _ ih =>
    rw [List.append_assoc]
    exact (ih hp').append _

theorem postfixes_stop {expr : Parse Expr} {m : Nat} {e : Expr} {rest : List Lexeme}
    (h : Clear (continues 7) rest) : Reads (postfixes expr m e) rest e rest := by
  cases m with
  | zero => exact reads_pure_self _ _
  | succ m =>
    refine (reads_peek_self _).bind ?_
    cases rest with
    | nil => exact reads_pure_self _ _
    | cons t rest =>
      -- a dot, a bracket or a parenthesis would go on, and none of them follows
      rw [clear_cons] at h
      simp only [List.head?_cons, Option.map_some]
      split
      · next ht =>
        rw [Option.some.inj ht] at h
        cases h
      · next ht =>
        rw [Option.some.inj ht] at h
        cases h
      · next ht =>
        rw [Option.some.inj ht] at h
        cases h
      · exact reads_pure_self _ _

section

variable {expr : Parse Expr} {n : Nat} (hexpr : Complete expr (IsExpr 1) n (continues 1))

include hexpr

/-- Expressions with commas between them, up to a closing symbol. -/
theorem reads_items {k : Nat} {ts : List Lexeme} {es : List Expr} (h : CommaList (IsExpr 1) ts es)
    (hn : ts.length ≤ n) (hk : ts.length ≤ k) {t : Lexeme}
    (hclose : t.token = .symbol .rightParen ∨ t.token = .symbol .rightBracket)
    (rest : List Lexeme) :
    Reads (commaList startsExpr expr k) (ts ++ t :: rest) es (t :: rest) := by
  refine (hexpr.of_le hn).commaList begins_expr rfl hk h le_rfl ?_
  rw [clear_cons]
  rcases hclose with hclose | hclose <;> rw [hclose] <;> rfl

theorem reads_arguments {k : Nat} {ts : List Lexeme} {es : List Expr}
    (h : CommaList (IsExpr 1) ts es) (hn : ts.length ≤ n) (hk : ts.length ≤ k) (o c : Span)
    (rest : List Lexeme) :
    Reads (arguments expr k) (sym .leftParen o :: ts ++ sym .rightParen c :: rest) (es, c)
      rest := by
  refine (reads_symbol.2 rfl).bind ?_
  refine (reads_items hexpr h hn hk (.inl rfl) rest).bind ?_
  exact (reads_symbol.2 rfl).bind (reads_pure_self _ _)

theorem complete_primary {m : Nat} (hm : m ≤ n) :
    Complete (primary expr m) (IsExpr 9) (m + 1) (fun _ => false) := by
  intro us e h hlen rest _
  -- The strength is a variable for the cases; those of other strengths go away by arithmetic.
  generalize hp : 9 = p at h
  cases h with
  | @lit t l value =>
    have hread : Reads literal (t :: rest) (l, t.span) rest :=
      reads_literal.2 ⟨t, value, rfl, rfl⟩
    obtain ⟨token, span⟩ := t
    refine (reads_peek_self _).bind ?_
    cases value <;> exact hread.bind (reads_pure_self _ _)
  | name i =>
    refine (reads_peek_self _).bind ?_
    exact (reads_ident.2 rfl).bind (reads_pure_self _ _)
  | self s =>
    refine (reads_peek_self _).bind ?_
    exact (reads_keyword.2 rfl).bind (reads_pure_self _ _)
  -- within brackets, the bracket that closes ends everything
  | @paren o c ts _ inner =>
    simp only [List.cons_append, List.length_cons, List.length_append, List.length_nil,
      List.append_assoc, List.nil_append] at hlen ⊢
    refine (reads_peek_self _).bind ((reads_symbol.2 rfl).bind ?_)
    refine (hexpr inner (by omega) (clear_cons.2 rfl)).bind ?_
    exact (reads_symbol.2 rfl).bind (reads_pure_self _ _)
  | @list o c ts es items =>
    simp only [List.cons_append, List.length_cons, List.length_append, List.length_nil,
      List.append_assoc, List.nil_append] at hlen ⊢
    refine (reads_peek_self _).bind ((reads_symbol.2 rfl).bind ?_)
    refine (reads_items hexpr items (by omega) (by omega) (.inr rfl) rest).bind ?_
    exact (reads_symbol.2 rfl).bind (reads_pure_self _ _)
  | @new w i o c ts es items =>
    simp only [List.cons_append, List.length_cons, List.length_append, List.length_nil,
      List.append_assoc, List.nil_append] at hlen ⊢
    refine (reads_peek_self _).bind ((reads_keyword.2 rfl).bind ((reads_ident.2 rfl).bind ?_))
    exact (reads_arguments hexpr items (by omega) (by omega) o c rest).bind (reads_pure_self _ _)
  | binary =>
    have := BinaryOp.precedence_le ‹_›
    omega
  | _ => omega

/-- If the loop gives a result from a target of `us`, it gives that one from the primary at the
front of `us` too, with as many rounds more as there are postfixes in `us`. -/
theorem reads_postfixes {us : List Lexeme} {e : Expr} (h : IsExpr 8 us e) :
    ∃ s < us.length, ∀ k, us.length ≤ k + s + 1 → k + s ≤ n → ∀ rest r rest',
      Reads (postfixes expr k e) rest r rest' →
        Reads (primary expr (k + s) >>= postfixes expr (k + s)) (us ++ rest) r rest' := by
  -- The phrase grows to the right of its target, while the reader goes from left to right. So the
  -- statement is about whatever is read behind it, and the induction hands on more of that.
  generalize hp : 8 = p at h
  induction h using IsExpr.induct with
  | tighter _ inner =>
    subst hp
    have hpos := (begins_expr inner).length_pos
    refine ⟨0, hpos, fun k hlen hn rest r rest' hread => ?_⟩
    exact (complete_primary hexpr hn inner hlen (clear_false _)).bind hread
  | @member ts e d i _ ih =>
    obtain ⟨s, hs, ih⟩ := ih rfl
    refine ⟨s + 1, by simp; omega, fun k hlen hn rest r rest' hread => ?_⟩
    simp only [List.length_append, List.length_cons, List.length_nil] at hlen
    rw [List.append_assoc, show k + (s + 1) = k + 1 + s by omega]
    refine ih (k + 1) (by omega) (by omega) _ _ _ ?_
    refine (reads_peek_self _).bind ((reads_symbol.2 rfl).bind ?_)
    exact (reads_ident.2 rfl).bind hread
  | @call ts e o as es c _ items ih =>
    obtain ⟨s, hs, ih⟩ := ih rfl
    refine ⟨s + 1, by simp; omega, fun k hlen hn rest r rest' hread => ?_⟩
    simp only [List.length_append, List.length_cons, List.length_nil] at hlen
    simp only [List.append_assoc, List.cons_append, List.nil_append]
    rw [show k + (s + 1) = k + 1 + s by omega]
    refine ih (k + 1) (by omega) (by omega) _ _ _ ?_
    refine (reads_peek_self _).bind ?_
    exact (reads_arguments hexpr items (by omega) (by omega) o c rest).bind hread
  | @index ts e o is i c _ position ih =>
    obtain ⟨s, hs, ih⟩ := ih rfl
    refine ⟨s + 1, by simp; omega, fun k hlen hn rest r rest' hread => ?_⟩
    simp only [List.length_append, List.length_cons, List.length_nil] at hlen
    simp only [List.append_assoc, List.cons_append, List.nil_append]
    rw [show k + (s + 1) = k + 1 + s by omega]
    refine ih (k + 1) (by omega) (by omega) _ _ _ ?_
    refine (reads_peek_self _).bind ((reads_symbol.2 rfl).bind ?_)
    refine (hexpr position (by omega) (clear_cons.2 rfl)).bind ?_
    exact (reads_symbol.2 rfl).bind hread
  | @binary op =>
    have := op.precedence_le
    omega
  | _ => omega

theorem complete_postfix {m : Nat} (hm : m ≤ n) :
    Complete (do postfixes expr m (← primary expr m)) (IsExpr 8) (m + 1) (continues 7) := by
  intro us e h hlen rest hrest
  obtain ⟨s, hs, hread⟩ := reads_postfixes hexpr h
  have hfuel : m - s + s = m := by omega
  have hloop := hread (m - s) (by omega) (by omega) rest e rest (postfixes_stop hrest)
  rw [hfuel] at hloop
  exact hloop

theorem complete_unary {m : Nat} (hm : m ≤ n + 1) :
    Complete (unary expr m) (IsExpr 7) m (continues 7) := by
  induction m with
  | zero =>
    intro us e h hlen
    have hpos := (begins_expr h).length_pos
    omega
  | succ m ih =>
    intro us e h hlen rest hrest
    generalize hp : 7 = p at h
    cases h with
    | not operand =>
      rw [List.length_cons] at hlen
      refine (reads_peek_self _).bind ((reads_symbol.2 rfl).bind ?_)
      exact (ih (by omega) operand (by omega) hrest).bind (reads_pure_self _ _)
    | neg operand =>
      rw [List.length_cons] at hlen
      refine (reads_peek_self _).bind ((reads_symbol.2 rfl).bind ?_)
      exact (ih (by omega) operand (by omega) hrest).bind (reads_pure_self _ _)
    | await operand =>
      rw [List.length_cons] at hlen
      refine (reads_peek_self _).bind ((reads_keyword.2 rfl).bind ?_)
      exact (ih (by omega) operand (by omega) hrest).bind (reads_pure_self _ _)
    | tighter _ inner =>
      subst hp
      have hread := complete_postfix hexpr (by omega) inner hlen hrest
      -- it begins with none of the operators, so the reader goes on to the postfixes
      obtain ⟨t, vs, rfl, ht⟩ := begins_postfix inner
      refine (reads_peek_self _).bind ?_
      simp only [List.cons_append, List.head?_cons, Option.map_some]
      simp only [Bool.and_eq_true, bne_iff_ne] at ht
      split
      · next h => exact absurd (Option.some.inj h) ht.1.1
      · next h => exact absurd (Option.some.inj h) ht.1.2
      · next h => exact absurd (Option.some.inj h) ht.2
      · exact hread
    | binary =>
      have := BinaryOp.precedence_le ‹_›
      omega
    | _ => omega

end

theorem chain_stop {p m : Nat} {operand : Parse Expr} {e : Expr} {rest : List Lexeme}
    (h : Clear (continues p) rest) : Reads (chain p operand m e) rest e rest := by
  cases m with
  | zero => exact reads_pure_self _ _
  | succ m =>
    have hnone : Reads (operator? p) rest none rest := by
      refine reads_operator?.2 (.inr ⟨rfl, rfl, fun op hop => h.not_next ?_⟩)
      rw [continues_operator, hop, decide_eq_true le_rfl]
    exact hnone.bind (reads_pure_self _ _)

/-- As `reads_postfixes`, for the operators of a level and what they join. -/
theorem reads_chain {operand : Parse Expr} {p n : Nat} (hp : p ≤ 6)
    (hop : Complete operand (IsExpr (p + 1)) n (continues (p + 1))) {us : List Lexeme} {e : Expr}
    (h : IsExpr p us e) (hlen : us.length ≤ n) :
    ∃ s < us.length, ∀ k rest r rest', Clear (continues (p + 1)) rest →
      Reads (chain p operand k e) rest r rest' →
        Reads (operand >>= chain p operand (k + s)) (us ++ rest) r rest' := by
  -- As with postfixes: the left operand comes first and is handed what is read behind it.
  generalize hq : p = q at h
  induction h using IsExpr.induct with
  | tighter _ inner =>
    subst hq
    have hpos := (begins_expr inner).length_pos
    refine ⟨0, hpos, fun k rest r rest' hrest hread => ?_⟩
    exact (hop inner hlen hrest).bind hread
  | @binary op ts vs place a b lhs rhs ih =>
    rw [List.length_append, List.length_cons] at hlen
    obtain ⟨s, hs, hleft⟩ := ih (by omega) hq
    refine ⟨s + 1, by simp; omega, fun k rest r rest' hrest hread => ?_⟩
    rw [List.append_assoc, show k + (s + 1) = k + 1 + s by omega]
    subst hq
    -- the operator does not bind tighter than its own operands
    have hclear : Clear (continues (op.precedence + 1)) (sym op.symbol place :: vs ++ rest) := by
      rw [List.cons_append, clear_cons, continues_operator]
      exact decide_eq_false (by omega)
    refine hleft (k + 1) _ _ _ hclear ?_
    refine (reads_operator?.2 (.inl ⟨op, _, rfl, rfl, rfl⟩)).bind ?_
    exact (hop rhs (by omega) hrest).bind hread
  | _ => omega

theorem complete_binary {operand : Parse Expr} {n m : Nat} (hn : n ≤ m + 1)
    (ho : Complete operand (IsExpr 7) n (continues 7)) (k p : Nat) (hp : p + k = 7) :
    Complete (binary operand m (List.range' p k)) (IsExpr p) n (continues p) := by
  induction k generalizing p with
  | zero =>
    obtain rfl : p = 7 := by omega
    exact ho
  | succ k ih =>
    intro us e h hlen rest hrest
    have htighter := ih (p + 1) (by omega)
    obtain ⟨s, hs, hread⟩ := reads_chain (by omega) htighter h hlen
    have hfuel : m - s + s = m := by omega
    have hloop := hread (m - s) rest e rest (hrest.mono (continues_mono (by omega)))
      (chain_stop hrest)
    rw [hfuel] at hloop
    rw [List.range'_succ]
    exact hloop

theorem complete_expr (n : Nat) : Complete (expr n) (IsExpr 1) n (continues 1) := by
  induction n with
  | zero =>
    intro us e h hlen
    have hpos := (begins_expr h).length_pos
    omega
  | succ n ih => exact complete_binary le_rfl (complete_unary ih le_rfl) 6 1 rfl

/-! ## Statements -/

theorem begins_block {ts : List Lexeme} {b : Block} (h : IsBlock ts b) :
    Begins (· == .symbol .leftBrace) ts := by
  cases h
  exact ⟨_, _, rfl, rfl⟩

theorem clear_block {ts : List Lexeme} {b : Block} (h : IsBlock ts b) (rest : List Lexeme)
    {f : Token → Bool} (hf : f (.symbol .leftBrace) = false) : Clear f (ts ++ rest) := by
  refine ((begins_block h).append rest).clear fun t ht => ?_
  rw [eq_of_beq ht]
  exact hf

theorem begins_conditional {ts : List Lexeme} {c : Conditional} (h : IsConditional ts c) :
    Begins (· == .keyword .if_) ts := by
  cases h <;> exact ⟨_, _, rfl, rfl⟩

theorem Begins.mono {f g : Token → Bool} {ts : List Lexeme} (h : Begins f ts)
    (hfg : ∀ t, f t → g t) : Begins g ts := by
  obtain ⟨t, us, rfl, ht⟩ := h
  exact ⟨t, us, rfl, hfg _ ht⟩

theorem startsStmt_of_startsExpr {t : Token} (h : startsExpr t) : startsStmt t := by
  unfold startsStmt
  split
  all_goals first | rfl | exact h

theorem begins_stmt {ts : List Lexeme} {s : Stmt} (h : IsStmt ts s) : Begins startsStmt ts := by
  cases h with
  | expr target => exact ((begins_expr target).mono @startsStmt_of_startsExpr).append _
  | assign target =>
    rw [List.append_assoc]
    exact ((begins_expr target).mono @startsStmt_of_startsExpr).append _
  | cond branch =>
    refine (begins_conditional branch).mono fun t ht => ?_
    rw [eq_of_beq ht]
    rfl
  | nested block =>
    refine (begins_block block).mono fun t ht => ?_
    rw [eq_of_beq ht]
    rfl
  | breakLoop | continueLoop => exact ⟨_, _, rfl, rfl⟩
  | _ => exact ⟨_, _, rfl, rfl⟩

theorem complete_simpleStmt_expr (n : Nat) {us : List Lexeme} {e : Expr} (h : IsExpr 1 us e)
    (hlen : us.length ≤ n) (c : Span) (rest : List Lexeme) :
    Reads (simpleStmt n) (us ++ sym .semicolon c :: rest) (.expr (e.span.merge c) e) rest := by
  refine (complete_expr n h hlen (clear_cons.2 rfl)).bind ?_
  have hnone : Clear (· == .symbol .assign) (sym .semicolon c :: rest) := clear_cons.2 rfl
  refine (reads_after?_none hnone).bind ?_
  exact (reads_symbol.2 rfl).bind (reads_pure_self _ _)

theorem complete_simpleStmt_assign (n : Nat) {us vs : List Lexeme} {t e : Expr}
    (ht : IsExpr 1 us t) (he : IsExpr 1 vs e) (hus : us.length ≤ n) (hvs : vs.length ≤ n)
    (a c : Span) (rest : List Lexeme) :
    Reads (simpleStmt n) (us ++ sym .assign a :: (vs ++ sym .semicolon c :: rest))
      (.assign (t.span.merge c) t e) rest := by
  refine (complete_expr n ht hus (clear_cons.2 rfl)).bind ?_
  refine (reads_after?_some (complete_expr n he hvs (clear_cons.2 rfl))).bind ?_
  exact (reads_symbol.2 rfl).bind (reads_pure_self _ _)

/-- Where an expression begins, there is no keyword of a statement. -/
theorem stmt_eq_simpleStmt {block : Parse Block} {n : Nat} {ts : List Lexeme}
    (h : Begins startsExpr ts) : stmt block n ts = simpleStmt n ts := by
  obtain ⟨⟨token, span⟩, us, rfl, ht⟩ := h
  cases token with
  | keyword k => cases k <;> first | rfl | cases ht
  | symbol s => cases s <;> first | rfl | cases ht
  | _ => rfl

theorem complete_binding (n : Nat) :
    Complete (after? .leftParen do
      let name ← ident
      let _ ← symbol .rightParen
      return name) (Optional IsBinding) n (· == .symbol .leftParen) := by
  intro us i h _ rest hrest
  cases h with
  | none => exact reads_after?_none hrest
  | some item =>
    cases item with
    | mk i =>
      refine reads_after?_some ((reads_ident.2 rfl).bind ?_)
      exact (reads_symbol.2 rfl).bind (reads_pure_self _ _)

/-- An expression ends where a block begins. -/
theorem reads_expr_block {m : Nat} {ts bs : List Lexeme} {e : Expr} {b : Block}
    (he : IsExpr 1 ts e) (hb : IsBlock bs b) (hlen : ts.length ≤ m) (rest : List Lexeme) :
    Reads (expr m) (ts ++ (bs ++ rest)) e (bs ++ rest) :=
  complete_expr m he hlen (clear_block hb rest rfl)

section

variable {block : Parse Block} {n : Nat} (hblock : Complete block IsBlock n (fun _ => false))

include hblock

theorem complete_conditional {m : Nat} (hm : m ≤ n) :
    Complete (conditional block m) IsConditional m (· == .keyword .else_) := by
  induction m with
  | zero =>
    intro us c h hlen
    have hpos := (begins_conditional h).length_pos
    omega
  | succ m ih =>
    intro us c h hlen rest hrest
    cases h with
    -- no else follows, or else it would belong here
    | alone cond thenBlock =>
      simp only [List.length_append, List.length_cons] at hlen
      rw [List.append_assoc, List.cons_append]
      refine (reads_keyword.2 rfl).bind ((reads_expr_block cond thenBlock (by omega) _).bind ?_)
      refine (hblock thenBlock (by omega) (clear_false _)).bind ?_
      exact (reads_keyword?_none hrest).bind (reads_pure_self _ _)
    | block cond thenBlock other =>
      simp only [List.length_append, List.length_cons] at hlen
      simp only [List.append_assoc, List.cons_append]
      refine (reads_keyword.2 rfl).bind ((reads_expr_block cond thenBlock (by omega) _).bind ?_)
      refine (hblock thenBlock (by omega) (clear_false _)).bind ?_
      refine (reads_keyword?.2 (.inl ⟨_, rfl, rfl⟩)).bind ((reads_peek_self _).bind ?_)
      have hother := hblock other (by omega) (clear_false rest)
      obtain ⟨⟨token, span⟩, vs, rfl, ht⟩ := begins_block other
      obtain rfl := eq_of_beq ht
      exact hother.bind (reads_pure_self _ _)
    | chain cond thenBlock next =>
      simp only [List.length_append, List.length_cons] at hlen
      simp only [List.append_assoc, List.cons_append]
      refine (reads_keyword.2 rfl).bind ((reads_expr_block cond thenBlock (by omega) _).bind ?_)
      refine (hblock thenBlock (by omega) (clear_false _)).bind ?_
      refine (reads_keyword?.2 (.inl ⟨_, rfl, rfl⟩)).bind ((reads_peek_self _).bind ?_)
      have hnext := ih (by omega) next (by omega) hrest
      obtain ⟨⟨token, span⟩, vs, rfl, ht⟩ := begins_conditional next
      obtain rfl := eq_of_beq ht
      exact hnext.bind (reads_pure_self _ _)

theorem complete_stmt : Complete (stmt block n) IsStmt n (· == .keyword .else_) := by
  intro us s h hlen rest hrest
  cases h with
  | @declare w i ts init c hinit =>
    simp only [List.length_append, List.length_cons] at hlen
    simp only [List.append_assoc, List.cons_append]
    refine (reads_peek_self _).bind ((reads_keyword.2 rfl).bind ((reads_ident.2 rfl).bind ?_))
    have hvalue := (complete_expr n).after? .assign hinit (by omega)
      (clear_cons.2 rfl : Clear _ (sym .semicolon c :: rest))
    exact hvalue.bind ((reads_symbol.2 rfl).bind (reads_pure_self _ _))
  -- Behind an expression, a sign of assignment or a semicolon tells the two apart.
  | @assign ts t a vs v c target value =>
    simp only [List.length_append, List.length_cons] at hlen
    have hread := complete_simpleStmt_assign n target value (by omega) (by omega) a c rest
    rw [Reads, ← stmt_eq_simpleStmt ((begins_expr target).append _)] at hread
    simp only [List.append_assoc, List.cons_append, List.nil_append]
    exact hread
  | @expr ts e c value =>
    rw [List.length_append] at hlen
    have hread := complete_simpleStmt_expr n value (by omega) c rest
    rw [Reads, ← stmt_eq_simpleStmt ((begins_expr value).append _)] at hread
    rw [List.append_assoc]
    exact hread
  | cond branch =>
    have hread := complete_conditional hblock le_rfl branch hlen hrest
    obtain ⟨⟨token, span⟩, vs, rfl, ht⟩ := begins_conditional branch
    obtain rfl := eq_of_beq ht
    exact (reads_peek_self _).bind (hread.bind (reads_pure_self _ _))
  | whileLoop cond body =>
    simp only [List.length_append, List.length_cons] at hlen
    rw [List.append_assoc, List.cons_append]
    refine (reads_peek_self _).bind ((reads_keyword.2 rfl).bind ?_)
    refine (reads_expr_block cond body (by omega) _).bind ?_
    exact (hblock body (by omega) (clear_false _)).bind (reads_pure_self _ _)
  | forLoop iterable body =>
    simp only [List.length_append, List.length_cons] at hlen
    simp only [List.append_assoc, List.cons_append]
    refine (reads_peek_self _).bind ((reads_keyword.2 rfl).bind ((reads_ident.2 rfl).bind ?_))
    refine (reads_keyword.2 rfl).bind ((reads_expr_block iterable body (by omega) _).bind ?_)
    exact (hblock body (by omega) (clear_false _)).bind (reads_pure_self _ _)
  | @ret w ts e c value =>
    simp only [List.length_append, List.length_cons] at hlen
    simp only [List.append_assoc, List.cons_append]
    refine (reads_peek_self _).bind ((reads_keyword.2 rfl).bind ?_)
    have hvalue := (complete_expr n).when? begins_expr value (by omega)
      (clear_cons.2 rfl : Clear _ (sym .semicolon c :: rest))
    exact hvalue.bind ((reads_symbol.2 rfl).bind (reads_pure_self _ _))
  | throw value =>
    simp only [List.length_append, List.length_cons] at hlen
    simp only [List.append_assoc, List.cons_append]
    refine (reads_peek_self _).bind ((reads_keyword.2 rfl).bind ?_)
    refine (complete_expr n value (by omega) (clear_cons.2 rfl)).bind ?_
    exact (reads_symbol.2 rfl).bind (reads_pure_self _ _)
  | tryCatch body binding handler =>
    simp only [List.length_append, List.length_cons] at hlen
    simp only [List.append_assoc, List.cons_append]
    refine (reads_peek_self _).bind ((reads_keyword.2 rfl).bind ?_)
    refine (hblock body (by omega) (clear_false _)).bind ((reads_keyword.2 rfl).bind ?_)
    refine (complete_binding n binding (by omega) (clear_block handler rest rfl)).bind ?_
    exact (hblock handler (by omega) (clear_false _)).bind (reads_pure_self _ _)
  | breakLoop w c =>
    refine (reads_peek_self _).bind ((reads_keyword.2 rfl).bind ?_)
    exact (reads_symbol.2 rfl).bind (reads_pure_self _ _)
  | continueLoop w c =>
    refine (reads_peek_self _).bind ((reads_keyword.2 rfl).bind ?_)
    exact (reads_symbol.2 rfl).bind (reads_pure_self _ _)
  -- a block begins with a brace, and no other statement does
  | nested body =>
    have hread := hblock body hlen (clear_false rest)
    obtain ⟨⟨token, span⟩, vs, rfl, ht⟩ := begins_block body
    obtain rfl := eq_of_beq ht
    exact (reads_peek_self _).bind (hread.bind (reads_pure_self _ _))

end

theorem complete_block (n : Nat) : Complete (block n) IsBlock n (fun _ => false) := by
  induction n with
  | zero =>
    intro us b h hlen
    have hpos := (begins_block h).length_pos
    omega
  | succ n ih =>
    intro us b h hlen rest _
    cases h with
    | @mk o ts ss c stmts =>
      simp only [List.length_append, List.length_cons] at hlen
      simp only [List.append_assoc, List.cons_append]
      refine (reads_symbol.2 rfl).bind ?_
      have helse : ∀ t, startsStmt t → (t == .keyword .else_) = false := by
        intro t ht
        rw [beq_eq_false_iff_ne]
        rintro rfl
        cases ht
      have hstmts := (complete_stmt ih).many begins_stmt helse le_rfl stmts (by omega)
        (clear_cons.2 rfl : Clear _ (sym .rightBrace c :: rest))
      exact hstmts.bind ((reads_symbol.2 rfl).bind (reads_pure_self _ _))

/-! ## Declarations -/

theorem complete_defaultLiteral (n : Nat) (f : Token → Bool) :
    Complete defaultLiteral IsDefault n f := by
  intro us l h _ rest _
  cases h with
  | @plain t l value =>
    have hnone : Clear (· == .symbol .minus) (t :: rest) := by
      rw [clear_cons]
      generalize t.token = token at value
      cases value <;> rfl
    have hread : Reads literal (t :: rest) (l, t.span) rest :=
      reads_literal.2 ⟨t, value, rfl, rfl⟩
    exact (reads_symbol?_none hnone).bind (hread.bind (reads_pure_self _ _))
  | @negInt m t v value =>
    have hread : Reads literal (t :: rest) (.int v, t.span) rest :=
      reads_literal.2 ⟨t, value, rfl, rfl⟩
    exact (reads_symbol?.2 (.inl ⟨m, rfl, rfl⟩)).bind (hread.bind (reads_pure_self _ _))
  | @negFloat m t x value =>
    have hread : Reads literal (t :: rest) (.float x, t.span) rest :=
      reads_literal.2 ⟨t, value, rfl, rfl⟩
    exact (reads_symbol?.2 (.inl ⟨m, rfl, rfl⟩)).bind (hread.bind (reads_pure_self _ _))

theorem begins_param {ts : List Lexeme} {p : Param} (h : IsParam ts p) : Begins isIdent ts := by
  cases h
  exact ⟨_, _, rfl, rfl⟩

/-- What a parameter can go on with. -/
def continuesParam (t : Token) : Bool :=
  t == .symbol .colon || t == .symbol .assign

theorem complete_param (n : Nat) : Complete param IsParam n continuesParam := by
  intro us p h hlen rest hrest
  cases h with
  | @mk i ts t vs d typeName default =>
    simp only [List.length_append, List.length_cons] at hlen
    simp only [List.append_assoc, List.cons_append]
    refine (reads_ident.2 rfl).bind ?_
    have hdefault := (complete_defaultLiteral n (fun _ => false)).after? .assign default
      (by omega) (hrest.mono (by simp +contextual [continuesParam]))
    have hclear : Clear (fun t => t == .symbol .colon || false) (vs ++ rest) := by
      cases default with
      | none => exact hrest.mono (by simp +contextual [continuesParam])
      | some item =>
        cases item
        exact clear_cons.2 rfl
    have htypeName := (complete_ident n (fun _ => false)).after? .colon typeName
      (by omega) hclear
    exact htypeName.bind (hdefault.bind (reads_pure_self _ _))

theorem complete_field (n : Nat) : Complete (field n) IsField n (fun _ => false) := by
  intro us f h hlen rest _
  cases h with
  | @instance_ w i ts e c init =>
    simp only [List.length_append, List.length_cons] at hlen
    simp only [List.append_assoc, List.cons_append]
    refine (reads_keyword?_none (clear_cons.2 rfl)).bind ?_
    refine (reads_keyword.2 rfl).bind ((reads_ident.2 rfl).bind ?_)
    have hvalue := (complete_expr n).after? .assign init (by omega)
      (clear_cons.2 rfl : Clear _ (sym .semicolon c :: rest))
    exact hvalue.bind ((reads_symbol.2 rfl).bind (reads_pure_self _ _))
  | @static_ s w i ts e c init =>
    simp only [List.length_append, List.length_cons] at hlen
    simp only [List.append_assoc, List.cons_append]
    refine (reads_keyword?.2 (.inl ⟨s, rfl, rfl⟩)).bind ?_
    refine (reads_keyword.2 rfl).bind ((reads_ident.2 rfl).bind ?_)
    have hvalue := (complete_expr n).after? .assign init (by omega)
      (clear_cons.2 rfl : Clear _ (sym .semicolon c :: rest))
    exact hvalue.bind ((reads_symbol.2 rfl).bind (reads_pure_self _ _))

theorem complete_method (n : Nat) : Complete (method n) IsMethod n (fun _ => false) := by
  intro us m h hlen rest _
  cases h with
  | @mk mods w i o ts ps c rs r bs b stop modifiers params returns body =>
    simp only [List.length_append, List.length_cons] at hlen
    simp only [List.append_assoc, List.cons_append]
    refine (reads_run.2 ⟨rfl, modifiers, clear_cons.2 rfl⟩).bind ?_
    refine (reads_keyword.2 rfl).bind ((reads_ident.2 rfl).bind ((reads_symbol.2 rfl).bind ?_))
    have hparams := (complete_param n).commaList begins_param rfl le_rfl params (by omega)
      (clear_cons.2 rfl : Clear _ (sym .rightParen c :: (rs ++ (bs ++ rest))))
    refine hparams.bind ((reads_symbol.2 rfl).bind ?_)
    have hclear : Clear (fun t => t == .symbol .arrow || false) (bs ++ rest) := by
      cases body with
      | none => exact clear_cons.2 rfl
      | block inner => exact clear_block inner rest rfl
    refine ((complete_ident n _).after? .arrow returns (by omega) hclear).bind ?_
    cases body with
    | none => exact (reads_symbol?.2 (.inl ⟨_, rfl, rfl⟩)).bind (reads_pure_self _ _)
    | block inner =>
      refine (reads_symbol?_none (clear_block inner rest rfl)).bind ?_
      exact (complete_block n inner (by omega) (clear_false _)).bind (reads_pure_self _ _)

theorem startsMember_of_isMethodModifier {t : Token} (h : isMethodModifier t) :
    startsMember t := by
  unfold isMethodModifier at h
  split at h
  · rfl
  · rfl
  · rfl
  · cases h

theorem begins_member {ts : List Lexeme} {m : Member} (h : IsMember ts m) :
    Begins startsMember ts := by
  cases h with
  | field field => cases field <;> exact ⟨_, _, rfl, rfl⟩
  | method method =>
    cases method with
    | @mk mods _ _ _ _ _ _ _ _ _ _ _ modifiers =>
      cases mods with
      | nil => exact ⟨_, _, rfl, rfl⟩
      | cons m mods =>
        exact ⟨m, _, rfl, startsMember_of_isMethodModifier (modifiers m (List.mem_cons_self ..))⟩

theorem next_of_isField {ts : List Lexeme} (h : isField ts) :
    Next (.keyword .let_) ts ∨ Next (.keyword .let_) (ts.drop 1) := by
  unfold isField at h
  split at h
  · exact .inl rfl
  · exact .inr rfl
  · cases h

theorem isField_method {ts : List Lexeme} {m : MethodDecl} (h : IsMethod ts m)
    (rest : List Lexeme) : isField (ts ++ rest) = false := by
  cases h with
  | @mk mods _ _ _ _ _ _ _ _ _ _ _ modifiers =>
    have hnot : ∀ m ∈ mods, m.token ≠ .keyword .let_ := by
      intro m hm hlet
      have hmod := modifiers m hm
      rw [hlet] at hmod
      cases hmod
    rw [Bool.eq_false_iff]
    intro hfield
    have hlet := next_of_isField hfield
    -- The tokens in question are among the modifiers, or the word and the name behind them.
    match mods with
    | [] => simp [Next] at hlet
    | [m] => simp [Next, hnot] at hlet
    | m :: m' :: mods => simp [Next, hnot] at hlet

theorem complete_member (n : Nat) : Complete (member n) IsMember n (fun _ => false) := by
  intro us m h hlen rest hrest
  cases h with
  | field field =>
    have hread := complete_field n field hlen hrest
    refine (reads_get.2 ⟨rfl, rfl⟩).bind ?_
    have hfield : isField (us ++ rest) = true := by cases field <;> rfl
    rw [if_pos hfield]
    exact hread.bind (reads_pure_self _ _)
  | method method =>
    have hread := complete_method n method hlen hrest
    refine (reads_get.2 ⟨rfl, rfl⟩).bind ?_
    rw [if_neg (by rw [isField_method method rest]; exact Bool.false_ne_true)]
    exact hread.bind (reads_pure_self _ _)

theorem complete_generics (n : Nat) :
    Complete (after? .less do
      let names ← commaList1 ident (n + 1)
      let _ ← symbol .greater
      return names) (Optional IsGenerics) n (· == .symbol .less) := by
  intro us g h hlen rest hrest
  cases h with
  | none => exact reads_after?_none hrest
  | some item =>
    cases item with
    | @mk o ts is c names =>
      simp only [List.length_append, List.length_cons] at hlen
      simp only [List.append_assoc, List.cons_append]
      refine reads_after?_some ?_
      have hnames := (complete_ident n (fun _ => false)).commaList1 rfl (Nat.lt_succ_self n) names
        (by omega) (clear_cons.2 rfl : Clear _ (sym .greater c :: rest))
      exact hnames.bind ((reads_symbol.2 rfl).bind (reads_pure_self _ _))

theorem length_typeDecl_pos {ts : List Lexeme} {d : TypeDecl} (h : IsTypeDecl ts d) :
    0 < ts.length := by
  cases h
  simp only [List.length_append, List.length_cons]
  omega

theorem complete_typeDecl (n : Nat) :
    Complete (typeDecl (n + 1)) IsTypeDecl n (fun _ => false) := by
  intro us d h hlen rest _
  cases h with
  | @mk mods k w i gs g bs b o vs ms c modifiers generics bases members =>
    simp only [List.length_append, List.length_cons] at hlen
    simp only [List.append_assoc, List.cons_append]
    have hkind : isTypeModifier (.keyword (kindWord k)) = false := by cases k <;> rfl
    refine (reads_run.2 ⟨rfl, modifiers, clear_cons.2 hkind⟩).bind ?_
    refine (reads_typeKind (r := (k, w)).2 rfl).bind ((reads_ident.2 rfl).bind ?_)
    -- behind the name a colon or a brace follows, if no bracket does
    have hbases : Clear (· == .symbol .less)
        (bs ++ sym .leftBrace o :: (vs ++ sym .rightBrace c :: rest)) := by
      cases bases with
      | none => exact clear_cons.2 rfl
      | some item =>
        cases item
        exact clear_cons.2 rfl
    refine (complete_generics n generics (by omega) hbases).bind ?_
    have hbrace : Clear (fun t => t == .symbol .colon || (t == .symbol .comma || false))
        (sym .leftBrace o :: (vs ++ sym .rightBrace c :: rest)) := clear_cons.2 rfl
    have hnames := (complete_ident n (fun _ => false)).commaList1 rfl (Nat.lt_succ_self n)
    refine (hnames.after? .colon bases (by omega) hbrace).bind ((reads_symbol.2 rfl).bind ?_)
    have hmembers := ((complete_member (n + 1)).of_le (Nat.le_succ n)).many begins_member
      (fun _ _ => rfl) (Nat.le_succ n) members (by omega)
      (clear_cons.2 rfl : Clear _ (sym .rightBrace c :: rest))
    exact hmembers.bind ((reads_symbol.2 rfl).bind (reads_pure_self _ _))

end Parse

end GenLang
