/-!
# Byte spans

Places in a source text are counted in bytes of its UTF-8 encoding. A `Span` is a half-open range
of bytes; cutting a text at a byte is possible only between two characters.
-/

namespace GenLang.Text

/-- Number of bytes of the UTF-8 encoding. -/
def byteLength : List Char → Nat
  | [] => 0
  | c :: cs => c.utf8Size + byteLength cs

@[simp] theorem byteLength_nil : byteLength [] = 0 := rfl

@[simp] theorem byteLength_cons (c : Char) (cs : List Char) :
    byteLength (c :: cs) = c.utf8Size + byteLength cs := rfl

@[simp] theorem byteLength_append (a b : List Char) :
    byteLength (a ++ b) = byteLength a + byteLength b := by
  induction a with
  | nil => simp
  | cons c a ih => simp [ih, Nat.add_assoc]

/-- Cuts a text after exactly `n` bytes; `none` past the end and inside a character. -/
def cut? : List Char → Nat → Option (List Char × List Char)
  | cs, 0 => some ([], cs)
  | [], _ + 1 => none
  | c :: cs, n + 1 =>
    if c.utf8Size ≤ n + 1 then
      (cut? cs (n + 1 - c.utf8Size)).map fun (a, b) => (c :: a, b)
    else none

theorem cut?_byteLength (a b : List Char) : cut? (a ++ b) (byteLength a) = some (a, b) := by
  induction a with
  | nil => cases b <;> rfl
  | cons c a ih =>
    obtain ⟨k, hk⟩ : ∃ k, c.utf8Size + byteLength a = k + 1 :=
      ⟨c.utf8Size + byteLength a - 1, by have := c.utf8Size_pos; omega⟩
    have h : k + 1 - c.utf8Size = byteLength a := by omega
    simp only [List.cons_append, byteLength_cons, hk, cut?]
    rw [if_pos (by omega), h, ih]
    rfl

/-- A half-open range of bytes. -/
structure Span where
  start : Nat
  stop : Nat
deriving DecidableEq, Repr, Inhabited

namespace Span

/-- The smallest span that covers both. -/
def merge (a b : Span) : Span :=
  ⟨min a.start b.start, max a.stop b.stop⟩

/-- The text a span selects; `none` if it is out of range or splits a character. -/
def text? (span : Span) (source : String) : Option String :=
  if span.stop < span.start then none
  else do
    let (_, rest) ← cut? source.toList span.start
    let (selected, _) ← cut? rest (span.stop - span.start)
    return String.ofList selected

end Span

end GenLang.Text
