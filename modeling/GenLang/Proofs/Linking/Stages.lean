import GenLang.Proofs.Linking.Units
import GenLang.Proofs.Bodies.Lowering

/-!
# Which stage reports what

Each stage of a compilation has codes of its own: reading, names that are taken, declarations,
bodies and the entry point. So the diagnostics with a code are all from one stage.
-/

namespace GenLang

open Text

theorem Code.text_injective : Function.Injective Code.text := by
  have hall : ∀ a ∈ Code.all, ∀ b ∈ Code.all, a.text = b.text → a = b := by decide +kernel
  have hmem (a : Code) : a ∈ Code.all := by cases a <;> decide
  exact fun a b => hall a (hmem a) b (hmem b)

/-- The code of a diagnostic is one of some codes. -/
def Diagnostic.CodeIn (codes : List Code) (d : Diagnostic) : Prop :=
  ∃ code ∈ codes, d.code = code.text

/-- Whether a diagnostic has a code of the compiler. -/
def Diagnostic.has (code : Code) (d : Diagnostic) : Bool :=
  d.code == code.text

theorem Diagnostic.CodeIn.has_eq_false {codes : List Code} {d : Diagnostic} (h : d.CodeIn codes)
    {code : Code} (hcode : code ∉ codes) : d.has code = false := by
  obtain ⟨code', hmem, heq⟩ := h
  rw [has, heq, beq_eq_false_iff_ne]
  exact fun htext => hcode (Code.text_injective htext ▸ hmem)

theorem Diagnostic.filter_has_eq_nil {codes : List Code} {ds : List Diagnostic}
    (h : ∀ d ∈ ds, d.CodeIn codes) {code : Code} (hcode : code ∉ codes) :
    ds.filter (·.has code) = [] :=
  List.filter_eq_nil_iff.2 fun d hd => by simp [(h d hd).has_eq_false hcode]

theorem Diagnostic.filter_has_eq_self {code : Code} {ds : List Diagnostic}
    (h : ∀ d ∈ ds, d.CodeIn [code]) : ds.filter (·.has code) = ds := by
  refine List.filter_eq_self.2 fun d hd => ?_
  obtain ⟨code', hmem, heq⟩ := h d hd
  rw [List.mem_singleton.1 hmem] at heq
  exact beq_iff_eq.2 heq

/-! ## Stages -/

/-- The codes of syntax errors. -/
def SyntaxProblem.codes : List Code :=
  [.unexpectedChar, .unexpectedEnd, .unexpectedToken, .unterminatedString]

theorem SyntaxError.codeIn_toDiagnostic (e : SyntaxError) (file source : String) :
    (e.toDiagnostic file source).CodeIn SyntaxProblem.codes :=
  ⟨e.problem.code, by cases e.problem <;> simp [SyntaxProblem.code, SyntaxProblem.codes], rfl⟩

theorem Compilation.codeIn_parseUnits {sources : Sources} {units : List SourceUnit} :
    ∀ d ∈ (parseUnits sources units).2, d.CodeIn SyntaxProblem.codes := by
  intro d hd
  obtain ⟨_, hp, hd⟩ := List.mem_flatMap.1 hd
  obtain ⟨u, hu, rfl⟩ := List.mem_map.1 hp
  obtain ⟨e, -, rfl⟩ := List.mem_map.1 hd
  exact e.codeIn_toDiagnostic _ _

theorem Sources.codeIn_diagnostic (sources : Sources) {code : Code} {codes : List Code}
    (hcode : code ∈ codes) (file : String) (span : Span) (message : String) :
    (sources.diagnostic code file span message).CodeIn codes :=
  ⟨code, hcode, sources.code_diagnostic ..⟩

namespace Declaration

variable {sources : Sources} {table : SymbolTable} {ds : List Declaration}

theorem codeIn_enter : ∀ d ∈ (enter sources table ds).2.2, d.CodeIn [.duplicateType] := by
  intro x hx
  obtain ⟨d, -, message, rfl⟩ := exists_of_mem_enter hx
  exact sources.codeIn_diagnostic List.mem_cons_self _ _ _

/-- Where no taken name is reported, every declaration is entered. -/
theorem accepted_of_no_duplicates
    (h : ∀ x ∈ (enter sources table ds).2.2, x.has .duplicateType = false) :
    (enter sources table ds).2.1 = ds := by
  have hnil : (enter sources table ds).2.2 = [] := by
    rw [← Diagnostic.filter_has_eq_self codeIn_enter, List.filter_eq_nil_iff]
    exact fun x hx => by simp [h x hx]
  have hclean : ∀ x ∈ (enter sources table ds).2.2, x.isError = false := by simp [hnil]
  have hall : enter sources table ds = ((enter sources table ds).1, ds, []) :=
    enter_of_clean hclean
  rw [hall]

variable {s : SymbolTable} {options : CompileOptions}

theorem codeIn_check : ∀ d ∈ check sources s options ds, d.CodeIn codes := by
  intro d hd
  obtain ⟨decl, -, hd⟩ := List.mem_flatMap.1 hd
  obtain ⟨fault, hfault, rfl⟩ := List.mem_map.1 hd
  exact sources.codeIn_diagnostic (code_of_mem_faults fault hfault) _ _ _

theorem codeIn_checkEntryPoint : ∀ d ∈ checkEntryPoint s, d.CodeIn [.missingEntryPoint] := by
  intro d hd
  unfold checkEntryPoint at hd
  dsimp only at hd
  split at hd
  · cases hd
  · obtain rfl := List.mem_singleton.1 hd
    exact ⟨_, List.mem_cons_self, rfl⟩

end Declaration

namespace Lowering

variable {c : LoweringContext} {F : Footprint} {s : LoweringState} {n : Notes}

theorem Notes.Tell.codeIn (h : n.Tell c F s) :
    ∀ d ∈ n.diagnostics, d.CodeIn (.unusedLocal :: codes) := by
  obtain ⟨new, hnew, hcodes, -⟩ := h.evolves.diagnostics
  rw [h.diagnostics, hnew]
  exact hcodes

theorem codeIn_type {sources : Sources} {table : SymbolTable} {owner : TypeSymbol}
    {d : Declaration} :
    ∀ x ∈ (type sources table owner d).2.diagnostics, x.CodeIn (.unusedLocal :: codes) := by
  intro x hx
  simp only [type, members_eq, Notes.append, List.mem_append, List.mem_flatMap] at hx
  rcases hx with ⟨f, -, hx⟩ | ⟨m, -, hx⟩
  · obtain ⟨F, s, htell, -⟩ := tell_field f
    exact htell.codeIn x hx
  · obtain ⟨F, s, htell, -⟩ := tell_method m
    exact htell.codeIn x hx

theorem codeIn_types {sources : Sources} {table : SymbolTable} {ds : List Declaration} :
    ∀ x ∈ (types sources table ds).2.diagnostics, x.CodeIn (.unusedLocal :: codes) := by
  intro x hx
  rw [types, members_eq] at hx
  obtain ⟨p, -, hx⟩ := List.mem_flatMap.1 hx
  exact codeIn_type x hx

end Lowering

/-! ## Compilations -/

namespace Compilation

/-- The table of a compilation, the declarations that are entered, and the reports of others. -/
def entered (units : List SourceUnit) (references : List Image) :
    SymbolTable × List Declaration × List Diagnostic :=
  Declaration.enter ⟨units⟩ (Declaration.libraryTable references) (parseUnits ⟨units⟩ units).1

/-- The declarations of a compilation whose name is not taken. -/
def accepted (units : List SourceUnit) (references : List Image) : List Declaration :=
  (entered units references).2.1

theorem declarations_parseUnits (sources : Sources) (units : List SourceUnit) :
    (parseUnits sources units).1 = units.flatMap SourceUnit.declarations :=
  List.flatMap_map _ _ _

variable {name : String} {units : List SourceUnit} {references : List Image}
  {options : CompileOptions}

theorem find?_accepted {d : Declaration} (h : d ∈ accepted units references) :
    (entered units references).1.find? d.decl.name.name = some d.symbol :=
  Declaration.find?_enter h

/-- There is a type for each declaration that is entered, so before each of these it is asked whether
the compilation is cancelled. -/
theorem length_types :
    (ofUnits name units references options).types.length = (accepted units references).length := by
  have htypes : (ofUnits name units references options).types =
      (Lowering.types ⟨units⟩ (entered units references).1 (accepted units references)).1 := rfl
  rw [htypes, Lowering.types_eq fun d hd => find?_accepted hd, Lowering.members_eq,
    List.length_map]

/-- The diagnostics of the stages, one behind the other. -/
theorem diagnostics_ofUnits : (ofUnits name units references options).diagnostics =
    (parseUnits ⟨units⟩ units).2 ++ (entered units references).2.2 ++
      Declaration.check ⟨units⟩ (entered units references).1 options (accepted units references) ++
      (Lowering.types ⟨units⟩ (entered units references).1
        (accepted units references)).2.diagnostics ++ (if options.kind == .executable then
          Declaration.checkEntryPoint (entered units references).1 else []) :=
  rfl

/-- If no name is taken, every declaration is entered. -/
theorem accepted_of_no_duplicates
    (h : ∀ d ∈ (ofUnits name units references options).diagnostics, d.has .duplicateType = false) :
    accepted units references = (parseUnits ⟨units⟩ units).1 := by
  simp only [diagnostics_ofUnits, List.forall_mem_append] at h
  exact Declaration.accepted_of_no_duplicates h.1.1.1.2

section

variable (h : (ofUnits name units references options).hasErrors = false)

include h

theorem accepted_of_ok : accepted units references = (parseUnits ⟨units⟩ units).1 := by
  have hclean := isError_of_ok h
  simp only [diagnostics_ofUnits, List.forall_mem_append] at hclean
  have hall : entered units references = ((entered units references).1, _, []) :=
    Declaration.enter_of_clean hclean.1.1.1.2
  exact congrArg (·.2.1) hall

theorem clean_of_ok : (Lowering.types ⟨units⟩ (entered units references).1
    (accepted units references)).2.Clean := by
  have hclean := isError_of_ok h
  simp only [diagnostics_ofUnits, List.forall_mem_append] at hclean
  exact hclean.1.2

end

section

variable (name units references options)

theorem codeIn_entered : ∀ d ∈ (entered units references).2.2, d.CodeIn [.duplicateType] :=
  Declaration.codeIn_enter

theorem codeIn_entryPoint : ∀ d ∈ (if options.kind == .executable then
    Declaration.checkEntryPoint (entered units references).1 else []),
      d.CodeIn [.missingEntryPoint] := by
  split
  · exact Declaration.codeIn_checkEntryPoint
  · exact fun _ h => absurd h List.not_mem_nil

open Diagnostic in
/-- Cycles are reported of declarations only. -/
theorem filter_inheritanceCycle :
    (ofUnits name units references options).diagnostics.filter (·.has .inheritanceCycle) =
      (Declaration.check ⟨units⟩ (entered units references).1 options
        (accepted units references)).filter (·.has .inheritanceCycle) := by
  simp only [diagnostics_ofUnits, List.filter_append]
  rw [filter_has_eq_nil codeIn_parseUnits (by decide),
    filter_has_eq_nil (codeIn_entered units references) (by decide),
    filter_has_eq_nil Lowering.codeIn_types (by decide),
    filter_has_eq_nil (codeIn_entryPoint units references options) (by decide)]
  simp

open Diagnostic in
/-- Unused locals are reported of bodies only. -/
theorem filter_unusedLocal :
    (ofUnits name units references options).diagnostics.filter (·.has .unusedLocal) =
      (Lowering.types ⟨units⟩ (entered units references).1
        (accepted units references)).2.diagnostics.filter (·.has .unusedLocal) := by
  simp only [diagnostics_ofUnits, List.filter_append]
  rw [filter_has_eq_nil codeIn_parseUnits (by decide),
    filter_has_eq_nil (codeIn_entered units references) (by decide),
    filter_has_eq_nil Declaration.codeIn_check (by decide),
    filter_has_eq_nil (codeIn_entryPoint units references options) (by decide)]
  simp

open Diagnostic in
/-- A missing entry point is reported of the whole only. -/
theorem filter_missingEntryPoint :
    (ofUnits name units references options).diagnostics.filter (·.has .missingEntryPoint) =
      if options.kind == .executable then
        Declaration.checkEntryPoint (entered units references).1 else [] := by
  simp only [diagnostics_ofUnits, List.filter_append]
  rw [filter_has_eq_nil codeIn_parseUnits (by decide),
    filter_has_eq_nil (codeIn_entered units references) (by decide),
    filter_has_eq_nil Declaration.codeIn_check (by decide),
    filter_has_eq_nil Lowering.codeIn_types (by decide),
    filter_has_eq_self (codeIn_entryPoint units references options)]
  simp

end

end Compilation

end GenLang
