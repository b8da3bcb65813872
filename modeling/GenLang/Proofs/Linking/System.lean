import GenLang.Proofs.Linking.Loading
import GenLang.Proofs.Linking.Stages
import GenLang.Proofs.Linking.Standard
import GenLang.Proofs.Running.Repetition

/-!
# The library `System`

The text of the library is read once, and what its declarations are compiled to is then known in
every context: they are compiled without errors against nothing, the format has room for them
wherever their lines are, and `Text.Repeat` has the code of a counting loop.
-/

namespace GenLang

open Text

/-! ## Parts of a library -/

theorem Compilation.types_image (c : Compilation) : c.image.types = c.types :=
  rfl

/-- A type has the methods of its declaration, under their names. -/
theorem Lowering.findMethod?_type (sources : Sources) (table : SymbolTable) (owner : TypeSymbol)
    (d : Declaration) {name : String} {m : MethodDecl}
    (hm : d.decl.methods.find? (·.name.name == name) = some m) :
    ∃ c, (type sources table owner d).1.findMethod? name = some (member c (method m)).1 := by
  refine ⟨{ sources, table, owner, file := d.file, isStatic := m.isStatic,
            caller := d.decl.name.name ++ "." ++ m.name.name }, ?_⟩
  rw [TypeDef.findMethod?, type]
  dsimp only
  rw [members_eq (fun m : MethodDecl => _), List.find?_map]
  exact congrArg (Option.map _) hm

theorem Hierarchy.findLibraryClass?_of_module {h : Hierarchy} {library name : String} {l : Image}
    {t : TypeDef} (hlibrary : (h.libraryIndex? library).map h.module = some l)
    (htype : l.types.find? (·.name == name) = some t) :
    ∃ c, h.findLibraryClass? library name = some c ∧ h.typeDef c = t := by
  obtain ⟨i, hi, rfl⟩ := Option.map_eq_some_iff.1 hlibrary
  obtain ⟨hlt, -⟩ := of_libraryIndex? hi
  obtain ⟨c, hc, -, -, hdef⟩ := findIn?_of_find? (Nat.le_of_lt hlt) htype
  exact ⟨c, by rw [findLibraryClass?, hi, Option.bind_some, hc], hdef⟩

/-! ## Libraries of one file -/

namespace Compilation

variable {file text : String} {ts : List TypeDecl} (hparse : Parsed.ofSource text = ⟨ts, []⟩)

include hparse

theorem parseUnits_single (sources : Sources) :
    parseUnits sources [⟨file, text⟩] = (ts.map fun t => ⟨file, t⟩, []) := by
  unfold parseUnits
  rw [List.map_singleton, hparse]
  simp

/-- Each declaration of a file becomes a type. -/
theorem types_single {name : String} {before : List Image} {options : CompileOptions}
    (hok : (ofUnits name [⟨file, text⟩] before options).hasErrors = false) :
    (ofUnits name [⟨file, text⟩] before options).types =
      (ts.map fun t => Declaration.mk file t).map fun d => (Lowering.type ⟨[⟨file, text⟩]⟩
        (entered [⟨file, text⟩] before).1 d.symbol d).1 := by
  have haccepted := accepted_of_ok hok
  rw [parseUnits_single hparse] at haccepted
  have hentered : ∀ d ∈ ts.map fun t => Declaration.mk file t,
      (entered [⟨file, text⟩] before).1.find? d.decl.name.name = some d.symbol :=
    fun d hd => find?_accepted (haccepted.symm ▸ hd)
  have htypes : (ofUnits name [⟨file, text⟩] before options).types =
      (Lowering.types ⟨[⟨file, text⟩]⟩ (entered [⟨file, text⟩] before).1
        (accepted [⟨file, text⟩] before)).1 := rfl
  rw [htypes, haccepted, Lowering.types_eq hentered, Lowering.members_eq]

end Compilation

/-! ## Types that the format has room for -/

/-- The format has room for a type, which nests no deeper than any that is written by hand. -/
structure TypeDef.Expressible (t : TypeDef) : Prop where
  fits : t.fits = true
  writable : t.toPack.isWritable = true
  nesting : t.toPack.nesting ≤ 100

namespace Pack

theorem nestingAll_le {ps : List Pack} {n : Nat} (h : ∀ p ∈ ps, p.nesting ≤ n) :
    nestingAll ps ≤ n := by
  by_contra hdeep
  obtain ⟨p, hp, hlt⟩ := exists_of_nestingAll (Nat.lt_of_not_le hdeep)
  exact Nat.not_lt.2 (h p hp) hlt

end Pack

/-- An image has room in the format if its types and the names of its libraries have. -/
theorem Image.expressible_of_types {i : Image} (hversion : i.version = currentVersion)
    (hname : (Pack.str i.name).isWritable = true)
    (hreferences : (Pack.ofList .str i.references).isWritable = true)
    (hcount : i.types.length < 2 ^ 32) (htypes : ∀ t ∈ i.types, t.Expressible) :
    i.Expressible ∧ ¬i.TooDeep := by
  refine ⟨⟨?_, ?_⟩, ?_⟩
  · rw [Image.fits, hversion, Bool.and_eq_true, List.all_eq_true]
    exact ⟨by decide, fun t ht => (htypes t ht).fits⟩
  · have hall : (Pack.ofList TypeDef.toPack i.types).isWritable = true := by
      rw [Pack.ofList, Pack.isWritable, Pack.areWritable_eq_all, List.length_map, Bool.and_eq_true,
        decide_eq_true_iff, List.all_map, List.all_eq_true]
      exact ⟨hcount, fun t ht => (htypes t ht).writable⟩
    have hkind : (Pack.str i.kind.name).isWritable = true := by
      cases i.kind <;> decide
    rw [Image.toPack, Pack.isWritable_record, hversion]
    simp only [List.all_cons, List.all_nil, hname, hkind, hreferences, hall, Bool.and_true]
    exact ⟨by simp, by decide⟩
  -- only types are nested in earnest: everything else at the top is flat
  · have htypes : Pack.nestingAll (i.types.map TypeDef.toPack) ≤ 100 :=
      Pack.nestingAll_le fun p hp => by
        obtain ⟨t, ht, rfl⟩ := List.mem_map.1 hp
        exact (htypes t ht).nesting
    have hreferences : Pack.nestingAll (i.references.map Pack.str) ≤ 0 :=
      Pack.nestingAll_le fun p hp => by
        obtain ⟨r, -, rfl⟩ := List.mem_map.1 hp
        exact Nat.le_refl _
    rw [TooDeep, Image.toPack, Pack.record, Pack.nesting]
    simp only [List.map_cons, List.map_nil, Pack.nestingEntries, Pack.nesting, Pack.ofNat,
      Pack.ofList, Pack.maxDepth, List.length_cons, List.length_nil, Nat.max_eq_max]
    rw [if_neg (by decide)]
    omega

namespace StandardLibrary

/-- Types as the library declares them. -/
def declarations (ts : List TypeDecl) : List Declaration :=
  ts.map fun t => ⟨"System.gen", t⟩

/-- Whether nothing is reported of the declarations of a text where they stand alone. -/
def isClean (text : String) (ts : List TypeDecl) : Bool :=
  let sources : Sources := ⟨[⟨"System.gen", text⟩]⟩
  let (table, accepted, taken) :=
    Declaration.enter sources (Declaration.libraryTable []) (declarations ts)
  taken.isEmpty &&
    (Declaration.check sources table .referenceLibrary accepted).isEmpty &&
    (Lowering.types sources table accepted).2.diagnostics.isEmpty

/-- What has to be known of the text of the library, so that it is evaluated only once. -/
structure IsSystem (text : String) (ts : List TypeDecl) : Prop where
  parse : Parsed.ofSource text = ⟨ts, []⟩
  clean : isClean text ts = true
  few : ts.length ≤ 100
  /-- Wherever the lines are, and whatever other types there are. -/
  expressible_types : ∀ text table, ∀ d ∈ declarations ts,
    (Lowering.type ⟨[⟨"System.gen", text⟩]⟩ table d.symbol d).1.Expressible
  repeats : ∃ t m, ts.find? (·.name.name == "Text") = some t ∧
    t.methods.find? (·.name.name == "Repeat") = some m ∧
      ∀ c, (Lowering.member c (Lowering.method m)).1.IsRepetition

set_option maxRecDepth 100000 in
theorem exists_isSystem : ∃ ts, IsSystem (textOfLines systemLines) ts := by
  have htext := toList_textOfLines systemLines
  conv at htext =>
    rhs
    simp only [systemLines, List.flatMap_cons, List.flatMap_nil, String.reduceToList,
      List.cons_append, List.nil_append, List.append_nil]
  have hparse : Parsed.ofSource (textOfLines systemLines) = _ := rfl
  -- The declarations are evaluated here, with their places, so that the rest need not read them.
  conv at hparse =>
    rhs
    rw [Parsed.ofSource, Lexeme.ofSource, Lexeme.scan, htext]
    cbv
  refine ⟨_, hparse, ?clean, ?few, ?expressible, ?repeats⟩
  all_goals clear hparse htext
  case clean => decide +kernel
  case few => decide
  case expressible =>
    intro text table
    -- The text must not be looked at where the types are evaluated.
    generalize hunits : [SourceUnit.mk "System.gen" text] = units
    simp only [declarations, List.map_cons, List.map_nil, List.forall_mem_cons, List.not_mem_nil,
      false_implies, implies_true, and_true]
    refine ⟨?_, ?_, ?_, ?_, ?_, ?_, ?_, ?_⟩
    all_goals
      conv => arg 1; cbv
      subst hunits
      try simp only [List.reverseAux, beq_self_eq_true]
      generalize Position.ofByte text = place
      have hline (o : Nat) : (place o).line.toNat < UInt32.size := (place o).line.toNat_lt
      constructor
      case fits =>
        simp +decide [TypeDef.fits, FieldDef.fits, MethodDef.fits, Image.Stmt.allFit,
          Image.Stmt.fits, Image.Place.fits, Image.Expr.fits, Image.Expr.allFit, hline]
      case writable =>
        have hwide (o : Nat) : (place o).line.toNat < 18446744073709551616 :=
          (hline o).trans (by decide)
        conv => lhs; arg 1; cbv
        simp +decide [Pack.isWritable, Pack.areWritable, Pack.haveWritable, hwide]
      case nesting => cbv
  case repeats =>
    refine ⟨_, _, by cbv, by cbv, fun c => ?_⟩
    refine ⟨by cbv, by cbv, by cbv, by cbv, by cbv, by cbv, ?_⟩
    iterate 6 apply Exists.intro
    · conv => lhs; cbv
      rfl

/-! ## What it is compiled to -/

variable {text : String} {ts : List TypeDecl}

theorem library_eq (before : References) (text : String) :
    References.library before "System" text =
      .ofUnits "System" [⟨"System.gen", text⟩] before .referenceLibrary :=
  rfl

/-- The library is compiled without errors where there are no others. -/
theorem IsSystem.hasErrors_eq_false (h : IsSystem text ts) :
    (References.library [] "System" text).hasErrors = false := by
  have hclean := h.clean
  simp only [isClean, Bool.and_eq_true, List.isEmpty_iff] at hclean
  obtain ⟨⟨htaken, hcheck⟩, hlowered⟩ := hclean
  have hdiagnostics : (References.library [] "System" text).diagnostics = [] := by
    rw [library_eq, Compilation.diagnostics_ofUnits, Compilation.accepted, Compilation.entered,
      Compilation.parseUnits_single h.parse]
    show [] ++ (Declaration.enter _ _ (declarations ts)).2.2 ++ _ ++ _ ++ [] = []
    rw [htaken]
    exact congrArg₂ (· ++ · ++ []) hcheck hlowered
  rw [Compilation.hasErrors, Compilation.errors, hdiagnostics]
  rfl

section

variable {before : References} (h : IsSystem text ts)
  (hok : (References.library before "System" text).hasErrors = false)

include h hok

theorem IsSystem.types : (References.library before "System" text).types =
    (declarations ts).map fun d => (Lowering.type ⟨[⟨"System.gen", text⟩]⟩
      (Compilation.entered [⟨"System.gen", text⟩] before).1 d.symbol d).1 := by
  rw [library_eq] at hok ⊢
  exact Compilation.types_single h.parse hok

/-- It is loaded behind libraries whose names the format has room for. -/
theorem IsSystem.expressible (hnames : (Pack.ofList .str before.names).isWritable = true) :
    (References.library before "System" text).image.Expressible ∧
      ¬(References.library before "System" text).image.TooDeep := by
  have hname : (Pack.str "System").isWritable = true := by decide
  refine Image.expressible_of_types rfl hname hnames ?_ ?_
  · show (References.library before "System" text).types.length < _
    have hfew := h.few
    rw [h.types hok, List.length_map, declarations, List.length_map]
    omega
  · show ∀ t ∈ (References.library before "System" text).types, _
    rw [h.types hok, List.forall_mem_map]
    exact h.expressible_types text _

end

/-- A compiled library has the class, whose method has the code. -/
theorem IsSystem.repetition {before : References} (h : IsSystem text ts)
    (hok : (References.library before "System" text).hasErrors = false) :
    ∃ t d, (References.library before "System" text).types.find? (·.name == "Text") = some t ∧
      t.findMethod? "Repeat" = some d ∧ d.IsRepetition := by
  obtain ⟨t, m, ht, hm, hcode⟩ := h.repeats
  obtain ⟨c, hmethod⟩ := Lowering.findMethod?_type ⟨[⟨"System.gen", text⟩]⟩
    (Compilation.entered [⟨"System.gen", text⟩] before).1 (Declaration.mk "System.gen" t).symbol
    ⟨"System.gen", t⟩ hm
  refine ⟨_, _, ?_, hmethod, hcode c⟩
  rw [h.types hok, declarations, List.find?_map, List.find?_map]
  exact congrArg (Option.map _) (congrArg (Option.map _) ht)

end StandardLibrary

/-! ## The library as it is loaded -/

namespace References

theorem compileLibrary_of_not_tooDeep {before : References} {name text : String}
    (hok : (library before name text).hasErrors = false)
    (hi : (library before name text).image.Expressible)
    (hdeep : ¬(library before name text).image.TooDeep) :
    compileLibrary before name text none = .ok ((library before name text).image, none) := by
  apply compileLibrary_never
  rw [readBack_eq hok, Image.decode_of_not_tooDeep hi rfl hdeep]
  rfl

/-- What a library is loaded as is what it was compiled to. -/
theorem eq_library_of_compileLibrary {before : References} {name text : String} {image : Image}
    {patience left : Patience}
    (h : compileLibrary before name text patience = .ok (image, left)) :
    (library before name text).hasErrors = false ∧
      ((library before name text).image.toPack.isWritable = true →
        image = (library before name text).image) := by
  obtain ⟨hok, hdecode⟩ := readBack_ok (compileLibrary_ok h)
  exact ⟨hok, fun hwritable => Image.eq_of_decode hwritable hdecode⟩

theorem name_library (before : References) (name text : String) :
    (library before name text).image.name = name :=
  rfl

/-- There is such a library. -/
theorem exists_compileLibrary_system : ∃ system,
    compileLibrary [] "System" (StandardLibrary.textOfLines StandardLibrary.systemLines) none =
      .ok (system, none) ∧ system.name = "System" := by
  obtain ⟨ts, hts⟩ := StandardLibrary.exists_isSystem
  generalize StandardLibrary.textOfLines StandardLibrary.systemLines = text at hts ⊢
  have hok := hts.hasErrors_eq_false
  obtain ⟨hi, hdeep⟩ := hts.expressible hok (by decide)
  exact ⟨_, compileLibrary_of_not_tooDeep hok hi hdeep, name_library _ _ _⟩

theorem repetition_of_compileLibrary {before : References} {system : Image}
    {patience left : Patience} (hnames : (Pack.ofList .str before.names).isWritable = true)
    (h : compileLibrary before "System"
      (StandardLibrary.textOfLines StandardLibrary.systemLines) patience = .ok (system, left)) :
    ∃ t d, system.types.find? (·.name == "Text") = some t ∧ t.findMethod? "Repeat" = some d ∧
      d.IsRepetition := by
  obtain ⟨ts, hts⟩ := StandardLibrary.exists_isSystem
  generalize StandardLibrary.textOfLines StandardLibrary.systemLines = text at hts h
  obtain ⟨hok, heq⟩ := eq_library_of_compileLibrary h
  rw [heq (hts.expressible hok hnames).1.writable, Compilation.types_image]
  exact hts.repetition hok

end References

namespace Evaluator

/-- Wherever the library is loaded, `Text.Repeat` gives back the text as often as the count says and
leaves the machine as it was. -/
theorem repeat_replicates {before : References} {system : Image} {patience left : Patience}
    (hnames : (Pack.ofList .str before.names).isWritable = true)
    (hsystem : References.compileLibrary before "System"
      (StandardLibrary.textOfLines StandardLibrary.systemLines) patience = .ok (system, left))
    {env : Environment}
    (hloaded : (env.hierarchy.libraryIndex? "System").map env.hierarchy.module = some system)
    {m : Machine} (hpatience : m.patience = none) (hdepth : m.frames.length < env.maxCallDepth)
    (t : String) (n : Int64) :
    ∃ c, env.hierarchy.findLibraryClass? "System" "Text" = some c ∧
      ∀ fuel, n.toInt.toNat + 4 ≤ fuel →
        (ofFuel fuel).callStatic c "Repeat" [.str t, .int n] env m =
          .ok (.str (String.join (List.replicate n.toInt.toNat t))) m := by
  obtain ⟨type, d, htype, hmethod, hcode⟩ := References.repetition_of_compileLibrary hnames hsystem
  obtain ⟨c, hclass, hdef⟩ := Hierarchy.findLibraryClass?_of_module hloaded htype
  have hfound : env.hierarchy.findMethod? c "Repeat" = some (c, d) :=
    Hierarchy.findMethod?_of_own (by rw [hdef, hmethod])
  refine ⟨c, hclass, fun fuel hfuel => ?_⟩
  have hhierarchy : Run.hierarchy env m = .ok env.hierarchy m := rfl
  unfold callStatic
  refine (bind_of_ok hhierarchy).trans ?_
  simp only [hfound, hcode.isStatic, if_true]
  exact call_repetition env t hcode c hpatience hdepth hfuel

/-- Three times a text, and a count that asks for none, in a program of its own. -/
theorem repeat_replicates_outermost : ∃ system,
    References.compileLibrary [] "System"
      (StandardLibrary.textOfLines StandardLibrary.systemLines) none = .ok (system, none) ∧
    let env : Environment := { hierarchy := ⟨[system], default⟩, maxCallDepth := 1 }
    ∃ c, env.hierarchy.findLibraryClass? "System" "Text" = some c ∧
      (ofFuel 7).callStatic c "Repeat" [.str "ab", .int 3] env default =
        .ok (.str "ababab") default ∧
      (ofFuel 4).callStatic c "Repeat" [.str "ab", .int (-1)] env default =
        .ok (.str "") default := by
  obtain ⟨system, hsystem, hname⟩ := References.exists_compileLibrary_system
  refine ⟨system, hsystem, ?_⟩
  intro env
  have hloaded : (env.hierarchy.libraryIndex? "System").map env.hierarchy.module = some system := by
    have hindex : env.hierarchy.libraryIndex? "System" = some 0 :=
      List.find?_cons_of_pos (beq_iff_eq.2 hname)
    rw [hindex]
    rfl
  have hdepth : (default : Machine).frames.length < env.maxCallDepth := Nat.zero_lt_one
  obtain ⟨c, hclass, hthree⟩ :=
    repeat_replicates (by decide) hsystem hloaded rfl hdepth "ab" 3
  obtain ⟨c', hclass', hnone⟩ :=
    repeat_replicates (by decide) hsystem hloaded rfl hdepth "ab" (-1)
  obtain rfl := Option.some.inj (hclass.symm.trans hclass')
  exact ⟨c, hclass, hthree 7 (by decide), hnone 4 (by decide)⟩

end Evaluator

end GenLang
