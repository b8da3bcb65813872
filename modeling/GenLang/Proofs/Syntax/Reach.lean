import GenLang.Proofs.Syntax.Soundness

/-!
# How far a reader gets

A reader that fails has taken tokens too, and the tokens it took decide where its failure is: at
the first token it did not take, or, for a value a literal cannot have, at tokens among those it
took. No reader below a declaration takes a word that starts a type. So a declaration that goes
wrong is given up no later than at the next one.
-/

namespace GenLang

open Text

theorem Text.Span.merge_self (s : Span) : s.merge s = s := by
  simp [Span.merge]

namespace Parse

open Grammar

variable {α β : Type}

/-- Tokens that stand in a row among others, from `t` to `u`, and about none of which the lexer has
complained. -/
structure CleanRow (us : List Lexeme) (t u : Lexeme) (ws : List Lexeme) : Prop where
  row : ws <:+: us
  first : ws.head? = some t
  last : ws.getLast? = some u
  clean : ∀ w ∈ ws, w.token.isLexicalError = false

/-- The ways to end for a reader that has taken `us` and has `rest` before it. -/
inductive Ends (us rest : List Lexeme) : Except Failure (α × List Lexeme) → Prop
  | read (a : α) : Ends us rest (.ok (a, rest))
  | unexpected : Ends us rest (.error (.unexpected rest.head?))
  | invalid {t u ws} (message : String) (h : CleanRow us t u ws) :
      Ends us rest (.error (.invalid message (t.span.merge u.span)))

theorem CleanRow.mono {us vs : List Lexeme} {t u : Lexeme} {ws : List Lexeme}
    (h : CleanRow us t u ws) (hsub : us <:+: vs) : CleanRow vs t u ws :=
  ⟨h.row.trans hsub, h.first, h.last, h.clean⟩

theorem Ends.mono {us vs rest : List Lexeme} {r : Except Failure (α × List Lexeme)}
    (h : Ends us rest r) (hsub : us <:+: vs) : Ends vs rest r := by
  cases h with
  | read a => exact .read a
  | unexpected => exact .unexpected
  | invalid message h => exact .invalid message (h.mono hsub)

/-- A reader stays before the next word that starts a type. -/
def Stays (p : Parse α) : Prop :=
  ∀ ts, ∃ us rest, ts = us ++ rest ∧ (∀ u ∈ us, u.token.startsType = false) ∧ Ends us rest (p ts)

/-! ## Steps of a reader -/

/-- A reader that takes nothing and cannot fail. -/
theorem stays_of_ok {p : Parse α} (hp : ∀ ts, ∃ a, p ts = .ok (a, ts)) : Stays p := by
  intro ts
  obtain ⟨a, ha⟩ := hp ts
  refine ⟨[], ts, rfl, by simp, ?_⟩
  rw [ha]
  exact .read a

theorem Stays.pure (a : α) : Stays (Pure.pure a : Parse α) :=
  stays_of_ok fun _ => ⟨a, rfl⟩

theorem Stays.bind {p : Parse α} {q : α → Parse β} (hp : Stays p) (hq : ∀ a, Stays (q a)) :
    Stays (p >>= q) := by
  intro ts
  obtain ⟨us, rest, rfl, hus, h⟩ := hp ts
  change ∃ vs rest', _ ∧ _ ∧ Ends vs rest' (p (us ++ rest) >>= fun r => q r.1 r.2)
  generalize p (us ++ rest) = r at h
  cases h with
  | read a =>
    obtain ⟨vs, rest, rfl, hvs, h⟩ := hq a rest
    have hall : ∀ u ∈ us ++ vs, u.token.startsType = false := by
      simpa [or_imp, forall_and] using ⟨hus, hvs⟩
    exact ⟨us ++ vs, rest, by simp, hall, h.mono (List.suffix_append us vs).isInfix⟩
  | unexpected => exact ⟨us, rest, rfl, hus, .unexpected⟩
  | invalid message h => exact ⟨us, rest, rfl, hus, .invalid message h⟩

theorem stays_stop : Stays (stop : Parse α) :=
  fun ts => ⟨[], ts, rfl, by simp, .unexpected⟩

theorem stays_peek : Stays peek :=
  stays_of_ok fun _ => ⟨_, rfl⟩

theorem stays_get : Stays (get : Parse (List Lexeme)) :=
  stays_of_ok fun _ => ⟨_, rfl⟩

theorem stays_take {f : Lexeme → Option α} (hf : ∀ t, (f t).isSome → t.token.startsType = false) :
    Stays (take f) := by
  intro ts
  cases ts with
  | nil => exact ⟨[], [], rfl, by simp, .unexpected⟩
  | cons t ts =>
    rw [take]
    split
    · next a ha => exact ⟨[t], ts, rfl, by simpa using hf t (by simp [ha]), .read a⟩
    · exact ⟨[], t :: ts, rfl, by simp, .unexpected⟩

theorem stays_keyword (k : Keyword) (hk : Token.startsType (.keyword k) = false) :
    Stays (keyword k) := by
  refine stays_take fun t ht => ?_
  split at ht
  · next h => rw [h, hk]
  · cases ht

theorem stays_symbol (s : Symbol) : Stays (symbol s) := by
  refine stays_take fun t ht => ?_
  split at ht
  · next h => rw [h]; rfl
  · cases ht

theorem stays_ident : Stays ident := by
  refine stays_take fun t ht => ?_
  split at ht
  · next h => rw [h]; rfl
  · cases ht

theorem stays_keyword? (k : Keyword) (hk : Token.startsType (.keyword k) = false) :
    Stays (keyword? k) := by
  intro ts
  cases ts with
  | nil => exact ⟨[], [], rfl, by simp, .read none⟩
  | cons t ts =>
    rw [keyword?]
    split
    · next h => exact ⟨[t], ts, rfl, by simpa [h] using hk, .read _⟩
    · exact ⟨[], t :: ts, rfl, by simp, .read none⟩

theorem stays_symbol? (s : Symbol) : Stays (symbol? s) := by
  intro ts
  cases ts with
  | nil => exact ⟨[], [], rfl, by simp, .read none⟩
  | cons t ts =>
    rw [symbol?]
    split
    · next h => exact ⟨[t], ts, rfl, by simp [h, Token.startsType], .read _⟩
    · exact ⟨[], t :: ts, rfl, by simp, .read none⟩

theorem stays_operator? (p : Nat) : Stays (operator? p) := by
  intro ts
  cases ts with
  | nil => exact ⟨[], [], rfl, by simp, .read none⟩
  | cons t ts =>
    simp only [operator?]
    split
    · next s h =>
      split
      · split
        · exact ⟨[t], ts, rfl, by simp [h, Token.startsType], .read _⟩
        · exact ⟨[], t :: ts, rfl, by simp, .read none⟩
      · exact ⟨[], t :: ts, rfl, by simp, .read none⟩
    · exact ⟨[], t :: ts, rfl, by simp, .read none⟩

theorem run_bind (p : Token → Bool) (q : List Lexeme → Parse β) (ts : List Lexeme) :
    (run p >>= q) ts = q (ts.takeWhile (p ·.token)) (ts.dropWhile (p ·.token)) :=
  rfl

theorem stays_run {p : Token → Bool} (hp : ∀ t, p t → t.startsType = false) : Stays (run p) :=
  fun ts => ⟨ts.takeWhile (p ·.token), ts.dropWhile (p ·.token),
    List.takeWhile_append_dropWhile.symm,
    fun _ hu => hp _ (by simpa using List.mem_takeWhile_imp hu), .read _⟩

theorem literal_startsType {t : Token} {r : Except String Literal} (h : t.literal? = some r) :
    t.startsType = false := by
  unfold Token.startsType
  split
  · cases h
  · cases h
  · cases h
  · rfl

theorem literal_isLexicalError {t : Token} {r : Except String Literal} (h : t.literal? = some r) :
    t.isLexicalError = false := by
  unfold Token.isLexicalError
  split
  · cases h
  · cases h
  · rfl

theorem stays_literal : Stays literal := by
  intro ts
  cases ts with
  | nil => exact ⟨[], [], rfl, by simp, .unexpected⟩
  | cons t ts =>
    rw [literal]
    split
    · next h => exact ⟨[t], ts, rfl, by simpa using literal_startsType h, .read _⟩
    · next message h =>
      refine ⟨[t], ts, rfl, by simpa using literal_startsType h, ?_⟩
      rw [← t.span.merge_self]
      exact .invalid message ⟨List.infix_rfl, rfl, rfl, by simpa using literal_isLexicalError h⟩
    · exact ⟨[], t :: ts, rfl, by simp, .unexpected⟩

theorem Stays.after? {p : Parse α} (hp : Stays p) (s : Symbol) : Stays (after? s p) := by
  refine (stays_symbol? s).bind fun o => ?_
  cases o with
  | none => exact .pure _
  | some _ => exact hp.bind fun _ => .pure _

theorem Stays.when? {p : Parse α} (hp : Stays p) (starts : Token → Bool) :
    Stays (when? starts p) := by
  refine stays_peek.bind fun o => ?_
  split
  · split
    · exact hp.bind fun _ => .pure _
    · exact .pure _
  · exact .pure _

theorem Stays.many {p : Parse α} (hp : Stays p) (starts : Token → Bool) (n : Nat) :
    Stays (many starts p n) := by
  induction n with
  | zero => exact .pure _
  | succ n ih =>
    refine (hp.when? starts).bind fun o => ?_
    cases o with
    | none => exact .pure _
    | some a => exact ih.bind fun _ => .pure _

theorem Stays.commaList {p : Parse α} (hp : Stays p) (starts : Token → Bool) (n : Nat) :
    Stays (commaList starts p n) := by
  induction n with
  | zero => exact .pure _
  | succ n ih =>
    refine (hp.when? starts).bind fun o => ?_
    cases o with
    | none => exact .pure _
    | some a =>
      refine (stays_symbol? _).bind fun o => ?_
      cases o with
      | none => exact .pure _
      | some _ => exact ih.bind fun _ => .pure _

theorem Stays.commaList1 {p : Parse α} (hp : Stays p) (n : Nat) : Stays (commaList1 p n) := by
  induction n with
  | zero => exact stays_stop
  | succ n ih =>
    refine hp.bind fun a => (stays_symbol? _).bind fun o => ?_
    cases o with
    | none => exact .pure _
    | some _ => exact ih.bind fun _ => .pure _

/-! ## Expressions -/

section

variable {expr : Parse Expr} (hexpr : Stays expr)

include hexpr

theorem stays_arguments (n : Nat) : Stays (arguments expr n) :=
  (stays_symbol _).bind fun _ => (hexpr.commaList _ n).bind fun _ =>
    (stays_symbol _).bind fun _ => .pure _

theorem stays_primary (n : Nat) : Stays (primary expr n) := by
  refine stays_peek.bind fun o => ?_
  split
  · exact (stays_keyword _ rfl).bind fun _ => .pure _
  · exact (stays_keyword _ rfl).bind fun _ => stays_ident.bind fun _ =>
      (stays_arguments hexpr n).bind fun _ => .pure _
  · exact stays_ident.bind fun _ => .pure _
  · exact (stays_symbol _).bind fun _ => hexpr.bind fun _ => (stays_symbol _).bind fun _ => .pure _
  · exact (stays_symbol _).bind fun _ => (hexpr.commaList _ n).bind fun _ =>
      (stays_symbol _).bind fun _ => .pure _
  · exact stays_literal.bind fun _ => .pure _

theorem stays_postfixes (n : Nat) (e : Expr) : Stays (postfixes expr n e) := by
  induction n generalizing e with
  | zero => exact .pure _
  | succ n ih =>
    refine stays_peek.bind fun o => ?_
    split
    · exact (stays_symbol _).bind fun _ => stays_ident.bind fun _ => ih _
    · exact (stays_arguments hexpr n).bind fun _ => ih _
    · exact (stays_symbol _).bind fun _ => hexpr.bind fun _ => (stays_symbol _).bind fun _ => ih _
    · exact .pure _

theorem stays_unary (n : Nat) : Stays (unary expr n) := by
  induction n with
  | zero => exact stays_stop
  | succ n ih =>
    refine stays_peek.bind fun o => ?_
    split
    · exact (stays_symbol _).bind fun _ => ih.bind fun _ => .pure _
    · exact (stays_symbol _).bind fun _ => ih.bind fun _ => .pure _
    · exact (stays_keyword _ rfl).bind fun _ => ih.bind fun _ => .pure _
    · exact (stays_primary hexpr n).bind fun _ => stays_postfixes hexpr n _

end

theorem stays_chain {operand : Parse Expr} (h : Stays operand) (p n : Nat) (e : Expr) :
    Stays (chain p operand n e) := by
  induction n generalizing e with
  | zero => exact .pure _
  | succ n ih =>
    refine (stays_operator? p).bind fun o => ?_
    cases o with
    | none => exact .pure _
    | some op => exact h.bind fun _ => ih _

theorem stays_binary {operand : Parse Expr} (h : Stays operand) (n : Nat) (levels : List Nat) :
    Stays (binary operand n levels) := by
  induction levels with
  | nil => exact h
  | cons p tighter ih => exact ih.bind fun _ => stays_chain ih p n _

theorem stays_expr (n : Nat) : Stays (expr n) := by
  induction n with
  | zero => exact stays_stop
  | succ n ih => exact stays_binary (stays_unary ih (n + 1)) n _

/-! ## Statements -/

theorem stays_simpleStmt (n : Nat) : Stays (simpleStmt n) := by
  refine (stays_expr n).bind fun _ => ((stays_expr n).after? _).bind fun value => ?_
  refine (stays_symbol _).bind fun _ => ?_
  cases value with
  | none => exact .pure _
  | some _ => exact .pure _

section

variable {block : Parse Block} (hblock : Stays block)

include hblock

theorem stays_conditional (n : Nat) : Stays (conditional block n) := by
  induction n with
  | zero => exact stays_stop
  | succ n ih =>
    refine (stays_keyword _ rfl).bind fun _ => (stays_expr _).bind fun _ => hblock.bind fun _ => ?_
    refine (stays_keyword? _ rfl).bind fun o => ?_
    cases o with
    | none => exact .pure _
    | some _ =>
      refine stays_peek.bind fun o => ?_
      split
      · exact ih.bind fun _ => .pure _
      · exact hblock.bind fun _ => .pure _

theorem stays_stmt (n : Nat) : Stays (stmt block n) := by
  refine stays_peek.bind fun o => ?_
  split
  · -- a declaration
    exact (stays_keyword _ rfl).bind fun _ => stays_ident.bind fun _ =>
      ((stays_expr n).after? _).bind fun _ => (stays_symbol _).bind fun _ => .pure _
  · -- a conditional
    exact (stays_conditional hblock n).bind fun _ => .pure _
  · -- a loop with a condition
    exact (stays_keyword _ rfl).bind fun _ => (stays_expr n).bind fun _ =>
      hblock.bind fun _ => .pure _
  · -- a loop over items
    exact (stays_keyword _ rfl).bind fun _ => stays_ident.bind fun _ =>
      (stays_keyword _ rfl).bind fun _ => (stays_expr n).bind fun _ => hblock.bind fun _ => .pure _
  · -- a return
    exact (stays_keyword _ rfl).bind fun _ => ((stays_expr n).when? _).bind fun _ =>
      (stays_symbol _).bind fun _ => .pure _
  · -- a throw
    exact (stays_keyword _ rfl).bind fun _ => (stays_expr n).bind fun _ =>
      (stays_symbol _).bind fun _ => .pure _
  · -- a try
    refine (stays_keyword _ rfl).bind fun _ => hblock.bind fun _ => ?_
    refine (stays_keyword _ rfl).bind fun _ => ?_
    have hbinding : Stays (do
        let name ← ident
        let _ ← symbol .rightParen
        return name) :=
      stays_ident.bind fun _ => (stays_symbol _).bind fun _ => .pure _
    exact (hbinding.after? _).bind fun _ => hblock.bind fun _ => .pure _
  · -- a break
    exact (stays_keyword _ rfl).bind fun _ => (stays_symbol _).bind fun _ => .pure _
  · -- a continue
    exact (stays_keyword _ rfl).bind fun _ => (stays_symbol _).bind fun _ => .pure _
  · -- a block
    exact hblock.bind fun _ => .pure _
  · exact stays_simpleStmt n

end

theorem stays_block (n : Nat) : Stays (block n) := by
  induction n with
  | zero => exact stays_stop
  | succ n ih =>
    exact (stays_symbol _).bind fun _ => ((stays_stmt ih n).many _ n).bind fun _ =>
      (stays_symbol _).bind fun _ => .pure _

/-! ## Declarations -/

theorem stays_defaultLiteral : Stays defaultLiteral := by
  intro ts
  by_cases hminus : Next (.symbol .minus) ts
  · obtain ⟨⟨token, m⟩, ts, rfl⟩ : ∃ t us, ts = t :: us := by
      cases ts with
      | nil => cases hminus
      | cons t ts => exact ⟨t, ts, rfl⟩
    obtain rfl : token = .symbol .minus := Option.some.inj hminus
    obtain ⟨us, rest, rfl, hus, h⟩ := stays_literal ts
    have hall : ∀ u ∈ sym .minus m :: us, u.token.startsType = false := by
      simpa using ⟨rfl, hus⟩
    refine ⟨sym .minus m :: us, rest, rfl, hall, ?_⟩
    change Ends _ _ (literal (us ++ rest) >>= _)
    generalize hr : literal (us ++ rest) = r at h
    cases h with
    | unexpected => exact .unexpected
    | invalid message h =>
      exact .invalid message (h.mono (List.suffix_cons _ us).isInfix)
    | read r =>
      -- A value that cannot be negated is blamed on the minus and on the literal behind it.
      obtain ⟨t, hliteral, hspan, hts⟩ := reads_literal.1 hr
      obtain rfl : us = [t] := List.append_cancel_right hts
      obtain ⟨v, span⟩ := r
      obtain rfl : span = t.span := hspan
      cases v with
      | int n => exact .read _
      | float x => exact .read _
      | _ =>
        have hclean := literal_isLexicalError (literal?_eq_ok.2 hliteral)
        exact .invalid (t := sym .minus m) _
          ⟨List.infix_rfl, rfl, rfl, by simpa using ⟨rfl, hclean⟩⟩
  · have hread : defaultLiteral ts = (literal >>= fun r => pure r.1) ts := by
      have hnone : Reads (symbol? .minus) ts none ts := reads_symbol?.2 (.inr ⟨rfl, rfl, hminus⟩)
      change (symbol? .minus ts >>= _) = _
      rw [hnone]
      rfl
    rw [hread]
    exact (stays_literal.bind fun _ => .pure _) ts

theorem stays_param : Stays param :=
  stays_ident.bind fun _ => (stays_ident.after? _).bind fun _ =>
    (stays_defaultLiteral.after? _).bind fun _ => .pure _

theorem stays_field (n : Nat) : Stays (field n) :=
  (stays_keyword? _ rfl).bind fun _ => (stays_keyword _ rfl).bind fun _ => stays_ident.bind fun _ =>
    ((stays_expr n).after? _).bind fun _ => (stays_symbol _).bind fun _ => .pure _

theorem isMethodModifier_startsType {t : Token} (h : isMethodModifier t) :
    t.startsType = false := by
  unfold isMethodModifier at h
  split at h
  · rfl
  · rfl
  · rfl
  · cases h

theorem stays_method (n : Nat) : Stays (method n) := by
  refine (stays_run fun _ => isMethodModifier_startsType).bind fun _ => ?_
  refine (stays_keyword _ rfl).bind fun _ => stays_ident.bind fun _ => ?_
  refine (stays_symbol _).bind fun _ => (stays_param.commaList _ n).bind fun _ => ?_
  refine (stays_symbol _).bind fun _ => (stays_ident.after? _).bind fun _ => ?_
  refine (stays_symbol? _).bind fun o => ?_
  cases o with
  | none => exact (stays_block n).bind fun _ => .pure _
  | some _ => exact .pure _

theorem stays_member (n : Nat) : Stays (member n) := by
  refine stays_get.bind fun ts => ?_
  split
  · exact (stays_field n).bind fun _ => .pure _
  · exact (stays_method n).bind fun _ => .pure _

/-- Behind a first token of whatever kind, a reader stays before the next word that starts a
type. -/
theorem Stays.behind {q : α → Parse β} (hq : ∀ a, Stays (q a)) (f : Lexeme → Option α)
    (ts : List Lexeme) : ∃ us rest, ts = us ++ rest ∧
      (∀ u ∈ us.tail, u.token.startsType = false) ∧ Ends us rest ((take f >>= q) ts) := by
  cases ts with
  | nil => exact ⟨[], [], rfl, by simp, .unexpected⟩
  | cons t ts =>
    change ∃ us rest, _ ∧ _ ∧ Ends us rest (take f (t :: ts) >>= fun r => q r.1 r.2)
    rw [take]
    split
    · next a ha =>
      obtain ⟨us, rest, rfl, hus, h⟩ := hq a ts
      exact ⟨t :: us, rest, rfl, hus, h.mono (List.suffix_cons t us).isInfix⟩
    · exact ⟨[], t :: ts, rfl, by simp, .unexpected⟩

/-- A declaration that is read, or goes wrong, has taken its modifiers and then no word that starts
a type but for the first one. -/
theorem ends_typeDecl (n : Nat) (ts : List Lexeme) : ∃ mods us rest, ts = mods ++ (us ++ rest) ∧
    (∀ m ∈ mods, isTypeModifier m.token) ∧ (∀ u ∈ us.tail, u.token.startsType = false) ∧
      Ends (mods ++ us) rest (typeDecl n ts) := by
  have hgenerics : Stays (do
      let names ← commaList1 ident n
      let _ ← symbol .greater
      return names) :=
    (stays_ident.commaList1 n).bind fun _ => (stays_symbol _).bind fun _ => .pure _
  have hkind : ∃ us rest, ts.dropWhile (isTypeModifier ·.token) = us ++ rest ∧
      (∀ u ∈ us.tail, u.token.startsType = false) ∧ Ends us rest (typeDecl n ts) := by
    rw [typeDecl, run_bind]
    refine Stays.behind (fun r => ?_) _ _
    refine stays_ident.bind fun _ => (hgenerics.after? _).bind fun _ => ?_
    refine ((stays_ident.commaList1 n).after? _).bind fun _ => (stays_symbol _).bind fun _ => ?_
    exact ((stays_member n).many _ n).bind fun _ => (stays_symbol _).bind fun _ => .pure _
  obtain ⟨us, rest, hts, hus, h⟩ := hkind
  refine ⟨ts.takeWhile (isTypeModifier ·.token), us, rest, ?_, ?_, hus, ?_⟩
  · rw [← hts, List.takeWhile_append_dropWhile]
  · exact fun m hm => by simpa using List.mem_takeWhile_imp hm
  · exact h.mono (List.suffix_append _ us).isInfix

end Parse

end GenLang
