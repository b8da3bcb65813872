import GenLang.Proofs.Syntax.Formatting
import GenLang.Proofs.Image.RoundTrip
import GenLang.Proofs.Texts.Positions
import GenLang.Compilation

/-!
# Sums of any length

Nothing in a source has to be nested for its module to nest. The sum `1+1+…+1` is compiled without
errors however long it is, and its module nests as deep as the sum has operators.
-/

namespace GenLang

open Text Grammar Piece

namespace Ones

/-! ## The source -/

/-- So many more summands. -/
def more : Nat → List Piece
  | 0 => []
  | n + 1 => .token (.symbol .plus) :: .token (.int "1") :: more n

/-- A type whose field is a sum of ones, with so many operators. -/
def pieces (n : Nat) : List Piece :=
  [Printer.kw .type_, Printer.space, Printer.word "T", Printer.sym .leftBrace, Printer.kw .let_,
    Printer.space, Printer.word "x", Printer.space, Printer.sym .assign, Printer.space,
    .token (.int "1")] ++ (more n ++ [Printer.sym .semicolon, Printer.sym .rightBrace])

def text (n : Nat) : String :=
  String.join ((pieces n).map Piece.text)

theorem toList_text (n : Nat) : (text n).toList = chars (pieces n) := by
  rw [text, String.toList_join, List.flatMap_map, chars]

theorem spelled_one : Spelled (.int "1") :=
  Spelled.int 1

theorem runs_more (n : Nat) {rest : List Piece} (h : Runs (.token (.int "1")) rest) :
    Runs (.token (.int "1")) (more n ++ rest) := by
  induction n with
  | zero => exact h
  | succ n ih => exact ⟨.symbol _, rfl, spelled_one, rfl, ih⟩

theorem isWord_letter {c : Char} {name : String} (htext : name.toList = [c]) (hc : Lexer.isLetter c)
    (hname : Keyword.ofText? name = none) : IsWord name :=
  ⟨c, [], htext, hc, fun _ hd => absurd hd List.not_mem_nil, hname⟩

theorem runs_pieces (n : Nat) : Runs Printer.space (pieces n) := by
  have htype : IsWord "T" := isWord_letter rfl (by decide) (by decide)
  have hfield : IsWord "x" := isWord_letter rfl (by decide) (by decide)
  have hblank : Printer.space.Readable := readable_blank (by decide) (by decide)
  have hend : Runs (.token (.int "1")) [Printer.sym .semicolon, Printer.sym .rightBrace] :=
    ⟨.symbol _, rfl, .symbol _, rfl, trivial⟩
  exact ⟨.keyword _, rfl, hblank, rfl, .ident htype, rfl, .symbol _, rfl, .keyword _, rfl, hblank,
    rfl, .ident hfield, rfl, hblank, rfl, .symbol _, rfl, hblank, rfl, spelled_one, rfl,
    runs_more n hend⟩

/-! ## Its tree -/

/-- A sum of ones with so many operators, wherever it stands. -/
inductive Adds : Nat → Expr → Prop
  | one (s : Span) : Adds 0 (.lit s (.int 1))
  | plus {n : Nat} {a : Expr} (s s' : Span) (h : Adds n a) :
      Adds (n + 1) (.binary s .add a (.lit s' (.int 1)))

theorem literalOf_one : LiteralOf (.int "1") (.int 1) :=
  literalOf_toString (n := 1) (by decide)

/-- A chain groups to the left: each further summand takes all before it as its left operand. -/
theorem exists_chain (n : Nat) {m : Nat} {ts us : List Lexeme} {a : Expr}
    (ha : IsExpr BinaryOp.add.precedence ts a) (hm : Adds m a)
    (hus : us.map (·.token) = tokens (more n)) :
    ∃ e, IsExpr BinaryOp.add.precedence (ts ++ us) e ∧ Adds (m + n) e := by
  induction n generalizing m ts us a with
  | zero =>
    obtain rfl := map_token_eq_nil.1 hus
    rw [List.append_nil]
    exact ⟨a, ha, hm⟩
  | succ n ih =>
    rw [more, tokens_token, tokens_token] at hus
    obtain ⟨s, vs, rfl, hvs⟩ := map_token_eq_cons.1 hus
    obtain ⟨s', ws, rfl, hws⟩ := map_token_eq_cons.1 hvs
    have hone : IsExpr (BinaryOp.add.precedence + 1) [⟨.int "1", s'⟩] (.lit s' (.int 1)) :=
      (IsExpr.lit (t := ⟨.int "1", s'⟩) literalOf_one).loosen (by decide) (by decide)
    obtain ⟨e, he, hn⟩ := ih (.binary ha hone) (.plus _ s' hm) hws
    rw [List.append_assoc] at he
    exact ⟨e, he, by rwa [Nat.add_right_comm] at hn⟩

/-- The declaration that the source holds, given the places of its names, its field and itself. -/
def decl (t x f s : Span) (e : Expr) : TypeDecl where
  kind := .type
  name := ⟨"T", t⟩
  isAbstract := false
  isStatic := false
  generics := []
  bases := []
  members := [.field ⟨⟨"x", x⟩, false, some e, f⟩]
  span := s

theorem tokens_pieces (n : Nat) : tokens (pieces n) =
    .keyword .type_ :: .ident "T" :: .symbol .leftBrace :: .keyword .let_ :: .ident "x" ::
      .symbol .assign :: .int "1" ::
        (tokens (more n) ++ [.symbol .semicolon, .symbol .rightBrace]) := by
  rw [pieces, tokens_append, tokens_append]
  rfl

/-- What is read of the source. -/
theorem exists_decl (n : Nat) :
    ∃ t x f s e, Adds n e ∧ Parsed.ofSource (text n) = ⟨[decl t x f s e], []⟩ := by
  have htokens := ofSource_join (runs_pieces n)
  rw [tokens_pieces] at htokens
  simp only [map_token_eq_cons, map_token_eq_append, map_token_eq_nil] at htokens
  obtain ⟨w, _, hsource, t, _, rfl, o, _, rfl, l, _, rfl, x, _, rfl, a, _, rfl, i, _, rfl, ts, _,
    rfl, hts, c, _, rfl, b, _, rfl, rfl⟩ := htokens
  -- the sum hangs to the left, so that it grows around its first number
  have hone : IsExpr BinaryOp.add.precedence [⟨.int "1", i⟩] (.lit i (.int 1)) :=
    (IsExpr.lit (t := ⟨.int "1", i⟩) literalOf_one).loosen (by decide) (by decide)
  obtain ⟨e, he, hn⟩ := exists_chain n hone (.one i) hts
  have hinit : Optional (After (IsExpr 1) .assign) (sym .assign a :: ([⟨.int "1", i⟩] ++ ts))
      (some e) :=
    .some (.mk (he.loosen (by decide) (by decide)))
  have hfield : IsField _ ⟨.mk "x" x, false, some e, l.merge c⟩ :=
    .instance_ (w := l) (i := .mk "x" x) (c := c) hinit
  have hmods : ∀ m ∈ ([] : List Lexeme), Parse.isTypeModifier m.token := by simp
  have hdecl : IsTypeDecl _ (decl t x (l.merge c) (w.merge b) e) :=
    .mk (k := .type) (w := w) (i := .mk "T" t) (o := o) (c := b) hmods .none .none
      (.cons (.field hfield) .nil)
  have hfile := Parsed.ofLexemes_of_isFile (.cons hdecl .nil)
  refine ⟨t, x, l.merge c, w.merge b, e, by rwa [Nat.zero_add] at hn, ?_⟩
  rw [Parsed.ofSource, text, hsource]
  simpa [kindWord] using hfile

/-! ## Its module -/

/-- The code of a sum. -/
def code : Nat → Image.Expr
  | 0 => .const (.int 1)
  | n + 1 => .binary .add (code n) (.const (.int 1))

theorem expr_of_adds {n : Nat} {e : Expr} (h : Adds n e) : Lowering.expr e = pure (code n) := by
  induction h with
  | one s =>
    rw [Lowering.expr]
    rfl
  | plus s s' h ih =>
    rw [Lowering.expr, ih, Lowering.expr]
    rfl

/-- The type as it is compiled. -/
def typeDef (file : String) (line n : Nat) : TypeDef where
  name := "T"
  kind := .class_
  isAbstract := false
  isStatic := false
  generics := []
  base := none
  capabilities := []
  fields := [⟨"x", false, some (code n), line⟩]
  methods := []
  file := file

section

variable {n : Nat} {e : Expr} {t x f s : Span} {file : String} {sources : Sources}

/-- The table of a program that consists of one declaration. -/
def table (d : Declaration) : SymbolTable where
  types := [d.symbol]
  nodup := List.nodup_singleton _

theorem enter_decl :
    Declaration.enter sources (Declaration.libraryTable []) [⟨file, decl t x f s e⟩] =
      (table ⟨file, decl t x f s e⟩, [⟨file, decl t x f s e⟩], []) :=
  rfl

theorem check_decl {options : CompileOptions} :
    Declaration.check sources (table ⟨file, decl t x f s e⟩) options [⟨file, decl t x f s e⟩] =
      [] := by
  -- The capabilities are sorted, and sorting does not unfold.
  have hnone : (table ⟨file, decl t x f s e⟩).capabilitiesOf "T" = [] := List.mergeSort_nil
  have hcapabilities :
      Declaration.capabilityFaults (table ⟨file, decl t x f s e⟩) (decl t x f s e) = [] := by
    rw [Declaration.capabilityFaults, show (decl t x f s e).name.name = "T" from rfl, hnone]
    rfl
  have hfaults :
      Declaration.faults (table ⟨file, decl t x f s e⟩) options (decl t x f s e) = [] := by
    rw [Declaration.faults, hcapabilities]
    rfl
  rw [Declaration.check, List.flatMap_cons, hfaults]
  rfl

/-- What is lowered alone is lowered as it is in a list. -/
theorem members_singleton {α β : Type} {g : α → β × Lowering.Notes} {a : α} {b : β}
    (h : g a = (b, {})) : Lowering.members g [a] = ([b], {}) := by
  rw [Lowering.members, h]
  rfl

theorem fields_decl (h : Adds n e) (context : FieldDecl → LoweringContext) :
    Lowering.members (fun d => Lowering.member (context d) (Lowering.field d))
        [⟨.mk "x" x, false, some e, f⟩] =
      ([⟨"x", false, some (code n),
        (context ⟨.mk "x" x, false, some e, f⟩).sources.line
          (context ⟨.mk "x" x, false, some e, f⟩).file f.start⟩], {}) := by
  refine members_singleton ?_
  rw [Lowering.field, Lowering.expr?, expr_of_adds h]
  rfl

theorem type_decl (h : Adds n e) :
    Lowering.type sources (table ⟨file, decl t x f s e⟩) (Declaration.symbol ⟨file, decl t x f s e⟩)
        ⟨file, decl t x f s e⟩ =
      (typeDef file (sources.line file f.start) n, {}) := by
  have hfields : (decl t x f s e).fields = [⟨.mk "x" x, false, some e, f⟩] := rfl
  rw [Lowering.type, hfields, fields_decl h]
  rfl

theorem types_decl (h : Adds n e) :
    Lowering.types sources (table ⟨file, decl t x f s e⟩) [⟨file, decl t x f s e⟩] =
      ([typeDef file (sources.line file f.start) n], {}) :=
  members_singleton (type_decl h)

/-- Where there is no line feed, everything is on the first line. -/
theorem line_ofByte {text : String} (htext : '\n' ∉ text.toList) (o : Nat) :
    (Position.ofByte text o).line = 1 := by
  have hstarts : (LineIndex.ofText text).starts = [0] := by
    have h := startsBehind_append htext 0 []
    rw [List.append_nil] at h
    rw [LineIndex.ofText, h]
    rfl
  have hline (o : Nat) : (LineIndex.ofText text).lineOf o = 0 :=
    LineIndex.lineOf_eq (by rw [hstarts]; exact List.pairwise_singleton _ _) (by rw [hstarts]; rfl)
      (Nat.zero_le o) fun next hnext => by rw [hstarts] at hnext; cases hnext
  rw [Position.ofByte, LineIndex.position, hline]
  rfl

theorem not_mem_more (n : Nat) : '\n' ∉ chars (more n) := by
  induction n with
  | zero => exact List.not_mem_nil
  | succ n ih =>
    rw [more, chars_cons, chars_cons, List.mem_append, List.mem_append]
    rintro (h | h | h)
    · exact absurd h (by decide)
    · exact absurd h (by decide)
    · exact ih h

/-- The source has a single line. -/
theorem line_text (n offset : Nat) : Sources.line ⟨[⟨file, text n⟩]⟩ file offset = 1 := by
  have hfind : Sources.text? ⟨[⟨file, text n⟩]⟩ file = some (text n) := by
    simp [Sources.text?]
  have hline : '\n' ∉ (text n).toList := by
    rw [toList_text, pieces, chars, List.flatMap_append, List.flatMap_append, List.mem_append,
      List.mem_append]
    rintro (h | h | h)
    · exact absurd h (by decide)
    · exact not_mem_more n h
    · exact absurd h (by decide)
  rw [Sources.line, hfind]
  exact congrArg UInt32.toNat (line_ofByte hline offset)

/-- The module of a sum. -/
def image (name file : String) (n : Nat) : Image where
  version := Image.currentVersion
  name := name
  kind := .library
  references := []
  types := [typeDef file 1 n]

/-- A sum is compiled without errors, however long it is. -/
theorem ofUnits_text (name file : String) {options : CompileOptions}
    (hkind : options.kind = .library) (n : Nat) :
    (Compilation.ofUnits name [⟨file, text n⟩] [] options).hasErrors = false ∧
      (Compilation.ofUnits name [⟨file, text n⟩] [] options).image = image name file n := by
  obtain ⟨t, x, f, s, e, he, hparse⟩ := exists_decl n
  -- The places are those that the lexer gave, so nothing here can be evaluated as a whole: the
  -- stages are gone through one by one.
  have hunits : Compilation.parseUnits ⟨[⟨file, text n⟩]⟩ [⟨file, text n⟩] =
      ([⟨file, decl t x f s e⟩], []) := by
    unfold Compilation.parseUnits
    rw [List.map_singleton, hparse]
    rfl
  unfold Compilation.ofUnits Compilation.image
  dsimp only
  rw [hunits]
  dsimp only
  rw [enter_decl]
  dsimp only
  rw [types_decl he, check_decl, hkind, line_text]
  exact ⟨rfl, rfl⟩

end

/-! ## Its size -/

theorem fits_code (n : Nat) : (code n).fits = true := by
  induction n with
  | zero => rfl
  | succ n ih =>
    rw [code, Image.Expr.fits, ih]
    rfl

theorem writable_code (n : Nat) : (code n).toPack.isWritable = true := by
  induction n with
  | zero => decide
  | succ n ih =>
    have hone : (Image.Expr.const (.int 1)).toPack.isWritable = true := by decide
    rw [code, Image.Expr.toPack, Pack.isWritable_tagged, Bool.and_eq_true, Pack.isWritable_record]
    simp only [List.all_cons, List.all_nil, ih, hone, Bool.and_true]
    exact ⟨by decide, by simp, by decide⟩

/-- Every operator adds a level to what its left operand has. -/
theorem nesting_code (n : Nat) : n ≤ (code n).toPack.nesting := by
  induction n with
  | zero => exact Nat.zero_le _
  | succ n ih =>
    rw [code, Image.Expr.toPack]
    have hdeeper : (code n).toPack.nesting < (Pack.record [("op", .str BinaryOp.add.name),
        ("lhs", (code n).toPack), ("rhs", (Image.Expr.const (.int 1)).toPack)]).nesting :=
      Pack.nesting_lt_record (by simp) (by simp)
    exact (Nat.succ_le_of_lt (Nat.lt_of_le_of_lt ih hdeeper)).trans (Pack.nesting_le_tagged _ _)

theorem fits_image (name file : String) (n : Nat) : (image name file n).fits = true := by
  simp [image, Image.fits, TypeDef.fits, typeDef, FieldDef.fits, fits_code, Image.currentVersion,
    UInt32.size]

theorem writable_image {name file : String} (hname : (Pack.str name).isWritable = true)
    (hfile : (Pack.str file).isWritable = true) (n : Nat) :
    (image name file n).toPack.isWritable = true := by
  have hfield : (FieldDef.mk "x" false (some (code n)) 1).toPack.isWritable = true := by
    have hinit : (Pack.ofOption Image.Expr.toPack (some (code n))).isWritable = true :=
      writable_code n
    rw [FieldDef.toPack, Pack.isWritable_record]
    simp only [List.all_cons, List.all_nil, hinit, Bool.and_true]
    exact ⟨by simp, by decide⟩
  have htype : (typeDef file 1 n).toPack.isWritable = true := by
    have hfields : (Pack.ofList FieldDef.toPack [.mk "x" false (some (code n)) 1]).isWritable =
        true := by
      simp [Pack.ofList, Pack.isWritable, Pack.areWritable, hfield]
    rw [TypeDef.toPack, typeDef, Pack.isWritable_record]
    simp only [List.all_cons, List.all_nil, hfields, hfile, Bool.and_true]
    exact ⟨by simp, by decide⟩
  have htypes : (Pack.ofList TypeDef.toPack [typeDef file 1 n]).isWritable = true := by
    simp [Pack.ofList, Pack.isWritable, Pack.areWritable, htype]
  rw [Image.toPack, image, Pack.isWritable_record]
  simp only [List.all_cons, List.all_nil, hname, htypes, Bool.and_true]
  exact ⟨by simp, by decide⟩

theorem nesting_image (name file : String) (n : Nat) : n ≤ (image name file n).toPack.nesting := by
  have hfield : (code n).toPack.nesting <
      (FieldDef.mk "x" false (some (code n)) 1).toPack.nesting :=
    Pack.nesting_lt_record (by simp [Pack.ofOption]) (by simp)
  have htype : (FieldDef.mk "x" false (some (code n)) 1).toPack.nesting <
      (typeDef file 1 n).toPack.nesting :=
    (Pack.nesting_lt_array List.mem_cons_self).trans
      (Pack.nesting_lt_record (p := Pack.ofList FieldDef.toPack [.mk "x" false (some (code n)) 1])
        (by simp [typeDef]) (by simp))
  have himage : (typeDef file 1 n).toPack.nesting < (image name file n).toPack.nesting :=
    (Pack.nesting_lt_array List.mem_cons_self).trans
      (Pack.nesting_lt_record (p := Pack.ofList TypeDef.toPack [typeDef file 1 n])
        (by simp [image]) (by simp))
  have hcode := nesting_code n
  omega

end Ones

end GenLang
