import GenLang.Token.Lexer

/-!
# Canonical keys

The key of a source is the text of its tokens, a space between each two: layout and comments do not
show in it.
-/

namespace GenLang

/-- The source text of the tokens, comments left out, joined by single spaces. -/
def canonicalKey (source : String) : String :=
  " ".intercalate ((Lexeme.ofSource source).map (·.token.text))

end GenLang
