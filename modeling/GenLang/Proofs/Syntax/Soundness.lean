import Mathlib.Data.List.TakeWhile
import GenLang.Proofs.Syntax.Grammar

/-!
# What is read is in the grammar

Each reader takes tokens off the front of what is left, and the tokens it takes are a phrase of the
grammar for the tree it gives. Readers that are given how to read an inner expression or block are
sound as soon as that is, so that the bound on nesting is dealt with once, in `sound_expr` and
`sound_block`.
-/

namespace GenLang

open Text

theorem BinaryOp.ofSymbol?_eq_some {s : Symbol} {op : BinaryOp} :
    ofSymbol? s = some op ↔ s = op.symbol := by
  cases op <;> cases s <;> decide

namespace Parse

open Grammar

variable {α β : Type}

/-! ## Steps of a reader -/

/-- A reader gives a value and leaves some tokens. -/
def Reads (p : Parse α) (ts : List Lexeme) (a : α) (rest : List Lexeme) : Prop :=
  p ts = .ok (a, rest)

theorem reads_bind {p : Parse α} {f : α → Parse β} {ts b rest} :
    Reads (p >>= f) ts b rest ↔ ∃ a mid, Reads p ts a mid ∧ Reads (f a) mid b rest := by
  unfold Reads
  show (p ts >>= fun r => f r.1 r.2) = _ ↔ _
  cases p ts with
  | error e => simp [bind, Except.bind]
  | ok r =>
    obtain ⟨a, mid⟩ := r
    simp [bind, Except.bind, and_assoc]

theorem reads_pure {a b : α} {ts rest} : Reads (pure a) ts b rest ↔ b = a ∧ rest = ts := by
  show Except.ok (a, ts) = _ ↔ _
  simp [eq_comm]

theorem not_reads_throw {f : Failure} {b : α} {ts rest} : ¬ Reads (throw f) ts b rest := by
  show ¬ Except.error f = _
  simp

theorem not_reads_stop {b : α} {ts rest} : ¬ Reads stop ts b rest := by
  simp [Reads, stop]

theorem reads_get {ts us rest : List Lexeme} :
    Reads get ts us rest ↔ us = ts ∧ rest = ts := by
  show Except.ok (ts, ts) = _ ↔ _
  simp [eq_comm]

theorem reads_peek {ts o rest} :
    Reads peek ts o rest ↔ o = ts.head?.map (·.token) ∧ rest = ts := by
  simp [Reads, peek, eq_comm]

theorem reads_keyword {k ts s rest} : Reads (keyword k) ts s rest ↔ ts = kw k s :: rest := by
  unfold Reads keyword
  cases ts with
  | nil => simp [take]
  | cons t ts =>
    obtain ⟨token, span⟩ := t
    by_cases h : token = .keyword k <;> simp [take, h]

theorem reads_symbol {s ts place rest} :
    Reads (symbol s) ts place rest ↔ ts = sym s place :: rest := by
  unfold Reads symbol
  cases ts with
  | nil => simp [take]
  | cons t ts =>
    obtain ⟨token, span⟩ := t
    by_cases h : token = .symbol s <;> simp [take, h]

theorem reads_ident {ts i rest} : Reads ident ts i rest ↔ ts = word i :: rest := by
  unfold Reads ident
  cases ts with
  | nil => simp [take]
  | cons t ts =>
    obtain ⟨token, span⟩ := t
    obtain ⟨name, place⟩ := i
    cases token <;> simp [take, and_assoc]

/-- Whether a token is next. -/
def Next (t : Token) (ts : List Lexeme) : Prop :=
  ts.head?.map (·.token) = some t

/-- No token that satisfies the test is next. -/
def Clear (f : Token → Bool) (ts : List Lexeme) : Prop :=
  ∀ t ∈ ts.head?, ¬ f t.token

theorem reads_keyword? {k ts o rest} :
    Reads (keyword? k) ts o rest ↔
      (∃ s, o = some s ∧ ts = kw k s :: rest) ∨
        (o = none ∧ rest = ts ∧ ¬ Next (.keyword k) ts) := by
  unfold Reads
  cases ts with
  | nil => simp [keyword?, Next, eq_comm (b := o), eq_comm (b := rest)]
  | cons t ts =>
    obtain ⟨token, span⟩ := t
    by_cases h : token = .keyword k
    · simp [keyword?, Next, h]
      grind
    · simp [keyword?, Next, h]
      grind

theorem reads_symbol? {s ts o rest} :
    Reads (symbol? s) ts o rest ↔
      (∃ place, o = some place ∧ ts = sym s place :: rest) ∨
        (o = none ∧ rest = ts ∧ ¬ Next (.symbol s) ts) := by
  unfold Reads
  cases ts with
  | nil => simp [symbol?, Next, eq_comm (b := o), eq_comm (b := rest)]
  | cons t ts =>
    obtain ⟨token, span⟩ := t
    by_cases h : token = .symbol s
    · simp [symbol?, Next, h]
      grind
    · simp [symbol?, Next, h]
      grind

theorem literal?_eq_ok {t : Token} {l : Literal} : t.literal? = some (.ok l) ↔ LiteralOf t l := by
  constructor
  · intro h
    unfold Token.literal? at h
    split at h
    · next text =>
      dsimp only at h
      split at h
      · next fits =>
        cases h
        exact .int fits
      · cases h
    all_goals cases h
    · exact .float
    · exact .str
    · exact .verbatim
    · exact .true_
    · exact .false_
    · exact .null
  · rintro (h | _ | _ | _ | _ | _ | _) <;> simp_all [Token.literal?]

theorem reads_literal {ts r rest} :
    Reads literal ts r rest ↔ ∃ t, LiteralOf t.token r.1 ∧ r.2 = t.span ∧ ts = t :: rest := by
  unfold Reads
  cases ts with
  | nil => simp [literal]
  | cons t ts =>
    simp only [← literal?_eq_ok, literal]
    split
    · next v hv =>
      simp only [Except.ok.injEq, Prod.mk.injEq, List.cons.injEq]
      constructor
      · rintro ⟨rfl, rfl⟩
        exact ⟨t, hv, rfl, rfl, rfl⟩
      · rintro ⟨_, hl, hs, rfl, rfl⟩
        rw [hv] at hl
        obtain ⟨l, s⟩ := r
        simp_all
    all_goals
      simp only [reduceCtorEq, false_iff, List.cons.injEq, not_exists]
      rintro _ ⟨hl, -, rfl, -⟩
      simp_all

/-- What a reader takes is a phrase of the language. -/
def Sound (p : Parse α) (P : Phrase α) : Prop :=
  ∀ ⦃ts a rest⦄, Reads p ts a rest → ∃ us, ts = us ++ rest ∧ P us a

theorem sound_ident : Sound ident IsName := by
  intro ts i rest h
  rw [reads_ident] at h
  exact ⟨[word i], h, .mk i⟩

theorem Sound.after? {p : Parse α} {P : Phrase α} (hp : Sound p P) (s : Symbol) :
    Sound (after? s p) (Optional (After P s)) := by
  intro ts o rest h
  simp only [Parse.after?, reads_bind, reads_symbol?] at h
  obtain ⟨_, mid, ⟨place, rfl, rfl⟩ | ⟨rfl, rfl, -⟩, h⟩ := h
  · simp only [reads_bind, reads_pure] at h
    obtain ⟨a, _, ha, rfl, rfl⟩ := h
    obtain ⟨us, rfl, hus⟩ := hp ha
    exact ⟨sym s place :: us, rfl, .some (.mk hus)⟩
  · obtain ⟨rfl, rfl⟩ := reads_pure.1 h
    exact ⟨[], rfl, .none⟩

theorem Sound.when? {p : Parse α} {P : Phrase α} (hp : Sound p P) (starts : Token → Bool) :
    Sound (when? starts p) (Optional P) := by
  intro ts o rest h
  simp only [Parse.when?, reads_bind, reads_peek] at h
  obtain ⟨_, _, ⟨rfl, rfl⟩, h⟩ := h
  split at h
  · split at h
    · simp only [reads_bind, reads_pure] at h
      obtain ⟨a, _, ha, rfl, rfl⟩ := h
      obtain ⟨us, rfl, hus⟩ := hp ha
      exact ⟨us, rfl, .some hus⟩
    · obtain ⟨rfl, rfl⟩ := reads_pure.1 h
      exact ⟨[], rfl, .none⟩
  · obtain ⟨rfl, rfl⟩ := reads_pure.1 h
    exact ⟨[], rfl, .none⟩

theorem Sound.many {p : Parse α} {P : Phrase α} (hp : Sound p P) (starts : Token → Bool)
    (n : Nat) : Sound (many starts p n) (Many P) := by
  induction n with
  | zero =>
    intro ts as rest h
    obtain ⟨rfl, rfl⟩ := reads_pure.1 h
    exact ⟨[], rfl, .nil⟩
  | succ n ih =>
    intro ts as rest h
    simp only [Parse.many, reads_bind] at h
    obtain ⟨o, mid, ho, h⟩ := h
    obtain ⟨us, rfl, hus⟩ := hp.when? starts ho
    cases hus with
    | none =>
      obtain ⟨rfl, rfl⟩ := reads_pure.1 h
      exact ⟨[], rfl, .nil⟩
    | some item =>
      simp only [reads_bind, reads_pure] at h
      obtain ⟨others, _, h, rfl, rfl⟩ := h
      obtain ⟨vs, rfl, hvs⟩ := ih h
      exact ⟨us ++ vs, (List.append_assoc ..).symm, .cons item hvs⟩

theorem Sound.commaList {p : Parse α} {P : Phrase α} (hp : Sound p P) (starts : Token → Bool)
    (n : Nat) : Sound (commaList starts p n) (CommaList P) := by
  induction n with
  | zero =>
    intro ts as rest h
    obtain ⟨rfl, rfl⟩ := reads_pure.1 h
    exact ⟨[], rfl, .nil⟩
  | succ n ih =>
    intro ts as rest h
    simp only [Parse.commaList, reads_bind] at h
    obtain ⟨o, mid, ho, h⟩ := h
    obtain ⟨us, rfl, hus⟩ := hp.when? starts ho
    cases hus with
    | none =>
      obtain ⟨rfl, rfl⟩ := reads_pure.1 h
      exact ⟨[], rfl, .nil⟩
    | some item =>
      -- behind an item a comma and more, or no comma and the end
      simp only [reads_bind, reads_symbol?] at h
      obtain ⟨_, _, ⟨c, rfl, rfl⟩ | ⟨rfl, rfl, -⟩, h⟩ := h
      · simp only [reads_bind, reads_pure] at h
        obtain ⟨others, _, h, rfl, rfl⟩ := h
        obtain ⟨vs, rfl, hvs⟩ := ih h
        exact ⟨us ++ sym .comma c :: vs, by simp, .cons item hvs⟩
      · obtain ⟨rfl, rfl⟩ := reads_pure.1 h
        exact ⟨us, rfl, .one item⟩

theorem Sound.commaList1 {p : Parse α} {P : Phrase α} (hp : Sound p P) (n : Nat) :
    Sound (commaList1 p n) (CommaList1 P) := by
  induction n with
  | zero => exact fun _ _ _ h => absurd h not_reads_stop
  | succ n ih =>
    intro ts as rest h
    simp only [Parse.commaList1, reads_bind, reads_symbol?] at h
    obtain ⟨a, mid, ha, _, _, ⟨c, rfl, rfl⟩ | ⟨rfl, rfl, -⟩, h⟩ := h
    · obtain ⟨us, rfl, hus⟩ := hp ha
      simp only [reads_bind, reads_pure] at h
      obtain ⟨others, _, h, rfl, rfl⟩ := h
      obtain ⟨vs, rfl, hvs⟩ := ih h
      exact ⟨us ++ sym .comma c :: vs, by simp, .cons hus hvs⟩
    · obtain ⟨us, rfl, hus⟩ := hp ha
      obtain ⟨rfl, rfl⟩ := reads_pure.1 h
      exact ⟨us, rfl, .one hus⟩

/-! ## Expressions -/

section

variable {expr : Parse Expr} (hexpr : Sound expr (IsExpr 1))

include hexpr

theorem sound_primary (n : Nat) : Sound (primary expr n) (IsExpr 9) := by
  intro ts e rest h
  simp only [primary, reads_bind, reads_peek] at h
  obtain ⟨_, _, ⟨rfl, rfl⟩, h⟩ := h
  split at h
  · -- the receiver
    simp only [reads_bind, reads_keyword, reads_pure] at h
    obtain ⟨s, _, rfl, rfl, rfl⟩ := h
    exact ⟨[kw .self_ s], rfl, .self s⟩
  · -- a new object
    simp only [arguments, reads_bind, reads_keyword, reads_ident, reads_symbol, reads_pure] at h
    obtain ⟨w, _, rfl, i, _, rfl, _, _, ⟨o, _, rfl, args, _, ha, c, _, rfl, rfl, rfl⟩, rfl, rfl⟩ :=
      h
    obtain ⟨us, rfl, hus⟩ := hexpr.commaList _ _ ha
    exact ⟨kw .new_ w :: word i :: sym .leftParen o :: us ++ [sym .rightParen c], by simp,
      .new hus⟩
  · -- a name
    simp only [reads_bind, reads_ident, reads_pure] at h
    obtain ⟨i, _, rfl, rfl, rfl⟩ := h
    exact ⟨[word i], rfl, .name i⟩
  · -- parentheses
    simp only [reads_bind, reads_symbol, reads_pure] at h
    obtain ⟨o, _, rfl, inner, _, hi, c, _, rfl, rfl, rfl⟩ := h
    obtain ⟨us, rfl, hus⟩ := hexpr hi
    exact ⟨sym .leftParen o :: us ++ [sym .rightParen c], by simp, .paren hus⟩
  · -- a list
    simp only [reads_bind, reads_symbol, reads_pure] at h
    obtain ⟨o, _, rfl, items, _, hi, c, _, rfl, rfl, rfl⟩ := h
    obtain ⟨us, rfl, hus⟩ := hexpr.commaList _ _ hi
    exact ⟨sym .leftBracket o :: us ++ [sym .rightBracket c], by simp, .list hus⟩
  · -- a literal
    simp only [reads_bind, reads_literal, reads_pure] at h
    obtain ⟨⟨l, s⟩, _, ⟨t, ht, hs, rfl⟩, rfl, rfl⟩ := h
    subst hs
    exact ⟨[t], rfl, .lit ht⟩

theorem sound_postfixes (n : Nat) {ts us rest : List Lexeme} {b e : Expr} (hb : IsExpr 8 us b)
    (h : Reads (postfixes expr n b) ts e rest) :
    ∃ vs, ts = vs ++ rest ∧ IsExpr 8 (us ++ vs) e := by
  induction n generalizing ts us b with
  | zero =>
    obtain ⟨rfl, rfl⟩ := reads_pure.1 h
    exact ⟨[], rfl, by simpa using hb⟩
  | succ n ih =>
    simp only [postfixes, reads_bind, reads_peek] at h
    obtain ⟨_, _, ⟨rfl, rfl⟩, h⟩ := h
    -- a member, a call, an index: each makes a longer phrase, on which the reader goes on
    split at h
    · simp only [reads_bind, reads_symbol, reads_ident] at h
      obtain ⟨d, _, rfl, i, _, rfl, h⟩ := h
      obtain ⟨vs, rfl, he⟩ := ih (.member hb) h
      exact ⟨sym .dot d :: word i :: vs, rfl, by simpa using he⟩
    · simp only [arguments, reads_bind, reads_symbol, reads_pure] at h
      obtain ⟨_, _, ⟨o, _, rfl, args, _, ha, c, _, rfl, rfl, rfl⟩, h⟩ := h
      obtain ⟨as, rfl, has⟩ := hexpr.commaList _ _ ha
      obtain ⟨vs, rfl, he⟩ := ih (.call hb has) h
      exact ⟨sym .leftParen o :: as ++ sym .rightParen c :: vs, by simp, by simpa using he⟩
    · simp only [reads_bind, reads_symbol] at h
      obtain ⟨o, _, rfl, i, _, hi, c, _, rfl, h⟩ := h
      obtain ⟨is, rfl, his⟩ := hexpr hi
      obtain ⟨vs, rfl, he⟩ := ih (.index hb his) h
      exact ⟨sym .leftBracket o :: is ++ sym .rightBracket c :: vs, by simp, by simpa using he⟩
    · obtain ⟨rfl, rfl⟩ := reads_pure.1 h
      exact ⟨[], rfl, by simpa using hb⟩

theorem sound_unary (n : Nat) : Sound (unary expr n) (IsExpr 7) := by
  induction n with
  | zero => exact fun _ _ _ h => absurd h not_reads_stop
  | succ n ih =>
    intro ts e rest h
    simp only [unary, reads_bind, reads_peek] at h
    obtain ⟨_, _, ⟨rfl, rfl⟩, h⟩ := h
    split at h
    · simp only [reads_bind, reads_symbol, reads_pure] at h
      obtain ⟨s, _, rfl, operand, _, ho, rfl, rfl⟩ := h
      obtain ⟨us, rfl, hus⟩ := ih ho
      exact ⟨sym .bang s :: us, rfl, .not hus⟩
    · simp only [reads_bind, reads_symbol, reads_pure] at h
      obtain ⟨s, _, rfl, operand, _, ho, rfl, rfl⟩ := h
      obtain ⟨us, rfl, hus⟩ := ih ho
      exact ⟨sym .minus s :: us, rfl, .neg hus⟩
    · simp only [reads_bind, reads_keyword, reads_pure] at h
      obtain ⟨s, _, rfl, operand, _, ho, rfl, rfl⟩ := h
      obtain ⟨us, rfl, hus⟩ := ih ho
      exact ⟨kw .await s :: us, rfl, .await hus⟩
    · simp only [reads_bind] at h
      obtain ⟨b, _, hb, h⟩ := h
      obtain ⟨us, rfl, hus⟩ := sound_primary hexpr n hb
      obtain ⟨vs, rfl, he⟩ := sound_postfixes hexpr n (.tighter (by omega) hus) h
      exact ⟨us ++ vs, by simp, .tighter (by omega) he⟩

end

theorem reads_operator? {p ts o rest} :
    Reads (operator? p) ts o rest ↔
      (∃ op s, o = some op ∧ op.precedence = p ∧ ts = sym op.symbol s :: rest) ∨
        (o = none ∧ rest = ts ∧
          ∀ op : BinaryOp, op.precedence = p → ¬ Next (.symbol op.symbol) ts) := by
  unfold Reads
  cases ts with
  | nil => simp [operator?, Next, eq_comm (b := o), eq_comm (b := rest)]
  | cons t ts =>
    obtain ⟨token, span⟩ := t
    cases token with
    | symbol s =>
      -- a sign that is no operator, or one of another strength, is left where it is
      cases h : BinaryOp.ofSymbol? s with
      | none =>
        have hne : ∀ op : BinaryOp, s ≠ op.symbol := by
          rintro op rfl
          rw [BinaryOp.ofSymbol?_symbol] at h
          cases h
        simp [operator?, Next, h, hne, eq_comm (b := o), eq_comm (b := rest)]
      | some op =>
        obtain rfl := BinaryOp.ofSymbol?_eq_some.1 h
        by_cases hp : op.precedence = p
        · simp [operator?, Next, h, hp]
          grind [BinaryOp.ofSymbol?_symbol]
        · simp [operator?, Next, h, hp]
          grind [BinaryOp.ofSymbol?_symbol]
    | _ => simp [operator?, Next, eq_comm (b := o), eq_comm (b := rest)]

theorem sound_chain {operand : Parse Expr} {p : Nat} (hp : Sound operand (IsExpr (p + 1)))
    (n : Nat) {ts us rest : List Lexeme} {a e : Expr} (ha : IsExpr p us a)
    (h : Reads (chain p operand n a) ts e rest) :
    ∃ vs, ts = vs ++ rest ∧ IsExpr p (us ++ vs) e := by
  induction n generalizing ts us a with
  | zero =>
    obtain ⟨rfl, rfl⟩ := reads_pure.1 h
    exact ⟨[], rfl, by simpa using ha⟩
  | succ n ih =>
    simp only [chain, reads_bind, reads_operator?] at h
    obtain ⟨_, _, ⟨op, s, rfl, rfl, rfl⟩ | ⟨rfl, rfl, -⟩, h⟩ := h
    · simp only [reads_bind] at h
      obtain ⟨b, _, hb, h⟩ := h
      obtain ⟨vs, rfl, hvs⟩ := hp hb
      obtain ⟨ws, rfl, he⟩ := ih (.binary ha hvs) h
      exact ⟨sym op.symbol s :: vs ++ ws, by simp, by simpa using he⟩
    · obtain ⟨rfl, rfl⟩ := reads_pure.1 h
      exact ⟨[], rfl, by simpa using ha⟩

/-- The levels that `binary` goes through are consecutive and end above prefix operators. -/
theorem sound_binary {operand : Parse Expr} (ho : Sound operand (IsExpr 7)) (n k p : Nat)
    (hp : p + k = 7) : Sound (binary operand n (List.range' p k)) (IsExpr p) := by
  induction k generalizing p with
  | zero =>
    obtain rfl : p = 7 := by omega
    exact ho
  | succ k ih =>
    intro ts e rest h
    have htighter := ih (p + 1) (by omega)
    simp only [List.range'_succ, binary, reads_bind] at h
    obtain ⟨a, _, ha, h⟩ := h
    obtain ⟨us, rfl, hus⟩ := htighter ha
    obtain ⟨vs, rfl, he⟩ := sound_chain htighter n (.tighter (by omega) hus) h
    exact ⟨us ++ vs, by simp, he⟩

theorem sound_expr (n : Nat) : Sound (expr n) (IsExpr 1) := by
  induction n with
  | zero => exact fun _ _ _ h => absurd h not_reads_stop
  | succ n ih => exact sound_binary (sound_unary ih (n + 1)) n 6 1 rfl

/-! ## Statements -/

theorem sound_simpleStmt (n : Nat) : Sound (simpleStmt n) IsStmt := by
  intro ts s rest h
  simp only [simpleStmt, reads_bind, reads_symbol] at h
  obtain ⟨target, _, ht, value, _, hv, c, _, rfl, h⟩ := h
  obtain ⟨us, rfl, hus⟩ := sound_expr n ht
  obtain ⟨vs, rfl, hvs⟩ := (sound_expr n).after? .assign hv
  cases hvs with
  | none =>
    obtain ⟨rfl, rfl⟩ := reads_pure.1 h
    exact ⟨us ++ [sym .semicolon c], by simp, .expr hus⟩
  | some hvalue =>
    obtain ⟨rfl, rfl⟩ := reads_pure.1 h
    cases hvalue with
    | @mk a ws _ hws =>
      exact ⟨us ++ sym .assign a :: ws ++ [sym .semicolon c], by simp, .assign hus hws⟩

theorem sound_binding :
    Sound (after? .leftParen do
      let name ← ident
      let _ ← symbol .rightParen
      return name) (Optional IsBinding) := by
  intro ts o rest h
  simp only [after?, reads_bind, reads_symbol?] at h
  obtain ⟨_, _, ⟨l, rfl, rfl⟩ | ⟨rfl, rfl, -⟩, h⟩ := h
  · simp only [reads_bind, reads_ident, reads_symbol, reads_pure] at h
    obtain ⟨i, _, ⟨_, _, rfl, r, _, rfl, rfl, rfl⟩, rfl, rfl⟩ := h
    exact ⟨[sym .leftParen l, word i, sym .rightParen r], rfl, .some (.mk i)⟩
  · obtain ⟨rfl, rfl⟩ := reads_pure.1 h
    exact ⟨[], rfl, .none⟩

section

variable {block : Parse Block} (hblock : Sound block IsBlock)

include hblock

theorem sound_conditional (n : Nat) : Sound (conditional block n) IsConditional := by
  induction n with
  | zero => exact fun _ _ _ h => absurd h not_reads_stop
  | succ n ih =>
    intro ts c rest h
    simp only [conditional, reads_bind, reads_keyword, reads_keyword?] at h
    obtain ⟨w, _, rfl, e, _, he, b, _, hb, _, _, h, h'⟩ := h
    obtain ⟨us, rfl, hus⟩ := sound_expr (n + 1) he
    obtain ⟨vs, rfl, hvs⟩ := hblock hb
    -- with an else, and behind it another condition or a block; or without
    obtain ⟨l, rfl, rfl⟩ | ⟨rfl, rfl, -⟩ := h
    · simp only [reads_bind, reads_peek] at h'
      obtain ⟨_, _, ⟨rfl, rfl⟩, h⟩ := h'
      split at h
      · simp only [reads_bind, reads_pure] at h
        obtain ⟨next, _, hn, rfl, rfl⟩ := h
        obtain ⟨ws, rfl, hws⟩ := ih hn
        exact ⟨kw .if_ w :: us ++ vs ++ kw .else_ l :: ws, by simp, .chain hus hvs hws⟩
      · simp only [reads_bind, reads_pure] at h
        obtain ⟨other, _, ho, rfl, rfl⟩ := h
        obtain ⟨ws, rfl, hws⟩ := hblock ho
        exact ⟨kw .if_ w :: us ++ vs ++ kw .else_ l :: ws, by simp, .block hus hvs hws⟩
    · obtain ⟨rfl, rfl⟩ := reads_pure.1 h'
      exact ⟨kw .if_ w :: us ++ vs, by simp, .alone hus hvs⟩

theorem sound_stmt (n : Nat) : Sound (stmt block n) IsStmt := by
  intro ts s rest h
  simp only [stmt, reads_bind, reads_peek] at h
  obtain ⟨_, _, ⟨rfl, rfl⟩, h⟩ := h
  split at h
  · -- `let`
    simp only [reads_bind, reads_keyword, reads_ident, reads_symbol, reads_pure] at h
    obtain ⟨w, _, rfl, i, _, rfl, init, _, hi, c, _, rfl, rfl, rfl⟩ := h
    obtain ⟨us, rfl, hus⟩ := (sound_expr n).after? .assign hi
    exact ⟨kw .let_ w :: word i :: us ++ [sym .semicolon c], by simp, .declare hus⟩
  · -- `if`
    simp only [reads_bind, reads_pure] at h
    obtain ⟨c, _, hc, rfl, rfl⟩ := h
    obtain ⟨us, rfl, hus⟩ := sound_conditional hblock n hc
    exact ⟨us, rfl, .cond hus⟩
  · -- `while`
    simp only [reads_bind, reads_keyword, reads_pure] at h
    obtain ⟨w, _, rfl, e, _, he, b, _, hb, rfl, rfl⟩ := h
    obtain ⟨us, rfl, hus⟩ := sound_expr n he
    obtain ⟨vs, rfl, hvs⟩ := hblock hb
    exact ⟨kw .while_ w :: us ++ vs, by simp, .whileLoop hus hvs⟩
  · -- `for`
    simp only [reads_bind, reads_keyword, reads_ident, reads_pure] at h
    obtain ⟨w, _, rfl, i, _, rfl, k, _, rfl, e, _, he, b, _, hb, rfl, rfl⟩ := h
    obtain ⟨us, rfl, hus⟩ := sound_expr n he
    obtain ⟨vs, rfl, hvs⟩ := hblock hb
    exact ⟨kw .for_ w :: word i :: kw .in_ k :: us ++ vs, by simp, .forLoop hus hvs⟩
  · -- `return`
    simp only [reads_bind, reads_keyword, reads_symbol, reads_pure] at h
    obtain ⟨w, _, rfl, value, _, hv, c, _, rfl, rfl, rfl⟩ := h
    obtain ⟨us, rfl, hus⟩ := (sound_expr n).when? startsExpr hv
    exact ⟨kw .return_ w :: us ++ [sym .semicolon c], by simp, .ret hus⟩
  · -- `throw`
    simp only [reads_bind, reads_keyword, reads_symbol, reads_pure] at h
    obtain ⟨w, _, rfl, value, _, hv, c, _, rfl, rfl, rfl⟩ := h
    obtain ⟨us, rfl, hus⟩ := sound_expr n hv
    exact ⟨kw .throw_ w :: us ++ [sym .semicolon c], by simp, .throw hus⟩
  · -- `try`
    simp only [reads_bind (α := Span), reads_bind (α := Block), reads_bind (α := Option Ident),
      reads_keyword, reads_pure] at h
    obtain ⟨w, _, rfl, b, _, hb, k, _, rfl, binding, _, hi, handler, _, hh, rfl, rfl⟩ := h
    obtain ⟨us, rfl, hus⟩ := hblock hb
    obtain ⟨vs, rfl, hvs⟩ := sound_binding hi
    obtain ⟨ws, rfl, hws⟩ := hblock hh
    exact ⟨kw .try_ w :: us ++ kw .catch_ k :: vs ++ ws, by simp, .tryCatch hus hvs hws⟩
  · -- `break`
    simp only [reads_bind, reads_keyword, reads_symbol, reads_pure] at h
    obtain ⟨w, _, rfl, c, _, rfl, rfl, rfl⟩ := h
    exact ⟨[kw .break_ w, sym .semicolon c], rfl, .breakLoop w c⟩
  · -- `continue`
    simp only [reads_bind, reads_keyword, reads_symbol, reads_pure] at h
    obtain ⟨w, _, rfl, c, _, rfl, rfl, rfl⟩ := h
    exact ⟨[kw .continue_ w, sym .semicolon c], rfl, .continueLoop w c⟩
  · -- a block
    simp only [reads_bind, reads_pure] at h
    obtain ⟨b, _, hb, rfl, rfl⟩ := h
    obtain ⟨us, rfl, hus⟩ := hblock hb
    exact ⟨us, rfl, .nested hus⟩
  · exact sound_simpleStmt n h

end

theorem sound_block (n : Nat) : Sound (block n) IsBlock := by
  induction n with
  | zero => exact fun _ _ _ h => absurd h not_reads_stop
  | succ n ih =>
    intro ts b rest h
    simp only [block, reads_bind, reads_symbol, reads_pure] at h
    obtain ⟨o, _, rfl, stmts, _, hs, c, _, rfl, rfl, rfl⟩ := h
    obtain ⟨us, rfl, hus⟩ := (sound_stmt ih n).many startsStmt n hs
    exact ⟨sym .leftBrace o :: us ++ [sym .rightBrace c], by simp, .mk hus⟩

/-! ## Declarations -/

theorem sound_defaultLiteral : Sound defaultLiteral IsDefault := by
  intro ts l rest h
  simp only [defaultLiteral, reads_bind, reads_symbol?] at h
  obtain ⟨_, _, ⟨m, rfl, rfl⟩ | ⟨rfl, rfl, -⟩, h⟩ := h
  · simp only [reads_bind, reads_literal] at h
    obtain ⟨⟨v, _⟩, _, ⟨t, ht, rfl, rfl⟩, h⟩ := h
    cases v with
    | int n =>
      obtain ⟨rfl, rfl⟩ := reads_pure.1 h
      exact ⟨[sym .minus m, t], rfl, .negInt ht⟩
    | float x =>
      obtain ⟨rfl, rfl⟩ := reads_pure.1 h
      exact ⟨[sym .minus m, t], rfl, .negFloat ht⟩
    | _ => exact absurd h not_reads_throw
  · simp only [reads_bind, reads_literal, reads_pure] at h
    obtain ⟨_, _, ⟨t, ht, -, rfl⟩, rfl, rfl⟩ := h
    exact ⟨[t], rfl, .plain ht⟩

theorem sound_param : Sound param IsParam := by
  intro ts p rest h
  simp only [param, reads_bind, reads_ident, reads_pure] at h
  obtain ⟨i, _, rfl, t, _, ht, d, _, hd, rfl, rfl⟩ := h
  obtain ⟨us, rfl, hus⟩ := sound_ident.after? .colon ht
  obtain ⟨vs, rfl, hvs⟩ := sound_defaultLiteral.after? .assign hd
  exact ⟨word i :: us ++ vs, by simp, .mk hus hvs⟩

theorem sound_field (n : Nat) : Sound (field n) IsField := by
  intro ts f rest h
  simp only [field, reads_bind, reads_keyword?, reads_keyword, reads_ident, reads_symbol,
    reads_pure] at h
  obtain ⟨_, _, hm, w, _, rfl, i, _, rfl, init, _, hi, c, _, rfl, rfl, rfl⟩ := h
  obtain ⟨us, rfl, hus⟩ := (sound_expr n).after? .assign hi
  obtain ⟨s, rfl, rfl⟩ | ⟨rfl, rfl, -⟩ := hm
  · exact ⟨kw .static_ s :: kw .let_ w :: word i :: us ++ [sym .semicolon c], by simp,
      .static_ hus⟩
  · exact ⟨kw .let_ w :: word i :: us ++ [sym .semicolon c], by simp, .instance_ hus⟩

/-- A run takes a longest stretch of tokens that satisfy the test. -/
theorem reads_run {p : Token → Bool} {ts us rest} :
    Reads (run p) ts us rest ↔
      ts = us ++ rest ∧ (∀ u ∈ us, p u.token) ∧ Clear p rest := by
  have hstop : Clear p (ts.dropWhile (p ·.token)) := by
    intro t ht
    have hnot := List.head?_dropWhile_not (p ·.token) ts
    rw [Option.mem_def.1 ht] at hnot
    simpa using hnot
  simp only [Reads, run, Except.ok.injEq, Prod.mk.injEq]
  constructor
  · rintro ⟨rfl, rfl⟩
    exact ⟨(List.takeWhile_append_dropWhile).symm,
      fun u hu => by simpa using List.mem_takeWhile_imp hu, hstop⟩
  · rintro ⟨rfl, hus, hrest⟩
    rw [List.takeWhile_append_of_pos (by simpa using hus),
      List.dropWhile_append_of_pos (by simpa using hus)]
    cases rest with
    | nil => simp
    | cons t rest => simp [hrest t (by simp)]

theorem sound_method (n : Nat) : Sound (method n) IsMethod := by
  intro ts m rest h
  simp only [method, reads_bind, reads_run, reads_keyword, reads_ident, reads_symbol] at h
  obtain ⟨mods, _, ⟨rfl, hmods, -⟩, w, _, rfl, i, _, rfl, o, _, rfl, ps, _, hps, c, _, rfl,
    r, _, hr, stop, _, hstop, h⟩ := h
  obtain ⟨us, rfl, hus⟩ := sound_param.commaList _ _ hps
  obtain ⟨vs, rfl, hvs⟩ := sound_ident.after? .arrow hr
  rw [reads_symbol?] at hstop
  obtain ⟨close, rfl, rfl⟩ | ⟨rfl, rfl, -⟩ := hstop
  · obtain ⟨rfl, rfl⟩ := reads_pure.1 h
    exact ⟨mods ++ kw .fn_ w :: word i :: sym .leftParen o :: us ++ sym .rightParen c :: vs ++
      [sym .semicolon close], by simp, .mk hmods hus hvs (.none close)⟩
  · simp only [reads_bind, reads_pure] at h
    obtain ⟨b, _, hb, rfl, rfl⟩ := h
    obtain ⟨ws, rfl, hws⟩ := sound_block n hb
    exact ⟨mods ++ kw .fn_ w :: word i :: sym .leftParen o :: us ++ sym .rightParen c :: vs ++ ws,
      by simp, .mk hmods hus hvs (.block hws)⟩

theorem sound_member (n : Nat) : Sound (member n) IsMember := by
  intro ts m rest h
  simp only [member, reads_bind, reads_get] at h
  obtain ⟨_, _, ⟨rfl, rfl⟩, h⟩ := h
  split at h
  · simp only [reads_bind, reads_pure] at h
    obtain ⟨f, _, hf, rfl, rfl⟩ := h
    obtain ⟨us, rfl, hus⟩ := sound_field n hf
    exact ⟨us, rfl, .field hus⟩
  · simp only [reads_bind, reads_pure] at h
    obtain ⟨m, _, hm, rfl, rfl⟩ := h
    obtain ⟨us, rfl, hus⟩ := sound_method n hm
    exact ⟨us, rfl, .method hus⟩

theorem reads_typeKind {ts r rest} :
    Reads typeKind ts r rest ↔ ts = kw (kindWord r.1) r.2 :: rest := by
  obtain ⟨kind, span⟩ := r
  unfold Reads typeKind
  cases ts with
  | nil => simp [take]
  | cons t ts =>
    obtain ⟨token, place⟩ := t
    by_cases htype : token = .keyword .type_
    · cases kind <;> simp [take, htype, kindWord]
    · by_cases hcap : token = .keyword .capability
      · cases kind <;> simp [take, hcap, kindWord]
      · cases kind <;> simp [take, htype, hcap, kindWord]

theorem sound_generics (n : Nat) :
    Sound (after? .less do
      let names ← commaList1 ident n
      let _ ← symbol .greater
      return names) (Optional IsGenerics) := by
  intro ts o rest h
  simp only [after?, reads_bind, reads_symbol?] at h
  obtain ⟨_, _, ⟨l, rfl, rfl⟩ | ⟨rfl, rfl, -⟩, h⟩ := h
  · simp only [reads_bind, reads_symbol, reads_pure] at h
    obtain ⟨_, _, ⟨is, _, hi, r, _, rfl, rfl, rfl⟩, rfl, rfl⟩ := h
    obtain ⟨us, rfl, hus⟩ := sound_ident.commaList1 n hi
    exact ⟨sym .less l :: us ++ [sym .greater r], by simp, .some (.mk hus)⟩
  · obtain ⟨rfl, rfl⟩ := reads_pure.1 h
    exact ⟨[], rfl, .none⟩

theorem sound_typeDecl (n : Nat) : Sound (typeDecl n) IsTypeDecl := by
  intro ts d rest h
  simp only [typeDecl, reads_bind (α := List Lexeme), reads_bind (α := TypeKind × Span),
    reads_bind (α := Ident), reads_bind (α := Option (List Ident)), reads_bind (α := Span),
    reads_bind (α := List Member), reads_run, reads_typeKind, reads_ident, reads_symbol,
    reads_pure] at h
  obtain ⟨mods, _, ⟨rfl, hmods, -⟩, ⟨k, w⟩, _, rfl, i, _, rfl, g, _, hg, b, _, hb, o, _, rfl,
    ms, _, hms, c, _, rfl, rfl, rfl⟩ := h
  obtain ⟨us, rfl, hus⟩ := sound_generics n hg
  obtain ⟨vs, rfl, hvs⟩ := (sound_ident.commaList1 n).after? .colon hb
  obtain ⟨ws, rfl, hws⟩ := (sound_member n).many startsMember n hms
  exact ⟨mods ++ kw (kindWord k) w :: word i :: us ++ vs ++ sym .leftBrace o :: ws ++
    [sym .rightBrace c], by simp, .mk hmods hus hvs hws⟩

end Parse

end GenLang
