import Mathlib.Data.List.Find
import GenLang.Proofs.Linking.Units

/-!
# Units in another order

No two types of a program without errors share a name. So the order in which its units are read
decides only in which order its types stand: whatever is looked up by name is found all the same.
-/

namespace GenLang

/-! ## Look-up by name -/

theorem find?_eq_of_perm {α : Type} {key : α → String} {as bs : List α} (h : as.Perm bs)
    (hnodup : (as.map key).Nodup) (name : String) :
    bs.find? (key · == name) = as.find? (key · == name) := by
  refine (List.find?_eq_find?_of_perm h ?_).symm
  rintro a ⟨ha, hname⟩ b ⟨hb, hname'⟩
  exact List.inj_on_of_nodup_map hnodup ha hb ((eq_of_beq hname).trans (eq_of_beq hname').symm)

theorem Sources.text?_of_perm {units units' : List SourceUnit} (h : units.Perm units')
    (hnames : (units.map (·.name)).Nodup) :
    (Sources.mk units').text? = (Sources.mk units).text? := by
  have hreversed : units.reverse.Perm units'.reverse :=
    (List.reverse_perm units).trans (h.trans (List.reverse_perm units').symm)
  have hnames' : (units.reverse.map (·.name)).Nodup := by
    rw [List.map_reverse]
    exact List.nodup_reverse.2 hnames
  funext file
  rw [text?, find?_eq_of_perm hreversed hnames', ← text?]

namespace SymbolTable

variable {s s' : SymbolTable}

/-- Tables with the same types, in whatever order, tell the same of each of them. -/
theorem agrees_of_perm (h : s.types.Perm s'.types) : s.Agrees s' := by
  have hfind : s'.find? = s.find? := funext (find?_eq_of_perm h s.nodup)
  have hbases : s'.basesOf = s.basesOf := by
    funext name
    rw [basesOf, hfind, ← basesOf]
  have hbase : s'.base? = s.base? := by
    funext name
    rw [base?, hbases, hfind, ← base?]
  have hancestors : s'.ancestors = s.ancestors := by
    funext name
    rw [ancestors, hbase, hfind, ← h.length_eq, ← ancestors]
  have hbound : s'.edgeBound = s.edgeBound := by
    rw [edgeBound, ← (h.flatMap_right _).length_eq, ← edgeBound]
  have hreachable : s'.reachable = s.reachable := by
    funext start
    rw [reachable, hbases, hbound, ← reachable]
  refine ⟨fun {name t} hname => ?_, fun {name} _ => ?_, fun {t} _ => ?_, fun {name t} _ ht => ?_⟩
  · rw [hfind, hname]
  · rw [hancestors]
  · rw [inCycle, hreachable, hbases, ← inCycle]
  · rwa [capabilitiesOf, hreachable, hfind, ← capabilitiesOf] at ht

end SymbolTable

/-! ## Declarations -/

namespace Declaration

/-- Entering, checking and lowering declarations meets no error. -/
structure Clean (sources : Sources) (table : SymbolTable) (options : CompileOptions)
    (ds : List Declaration) : Prop where
  entered : ∀ x ∈ (enter sources table ds).2.2, x.isError = false
  checked : ∀ x ∈ check sources (enter sources table ds).1 options (enter sources table ds).2.1,
    x.isError = false
  lowered : (Lowering.types sources (enter sources table ds).1 (enter sources table ds).2.1).2.Clean

variable {sources sources' : Sources} {table : SymbolTable} {options : CompileOptions}
  {ds ds' : List Declaration}

/-- Where no name is taken, every declaration is entered. -/
theorem enter_of_nodup (h : ((table.types ++ ds.map symbol).map (·.name)).Nodup) :
    (enter sources table ds).2 = (ds, []) := by
  induction ds generalizing table with
  | nil => rfl
  | cons d ds ih =>
    rw [enter]
    cases hinsert : table.insert d.symbol with
    | ok table' =>
      rw [List.map_cons, List.append_cons, ← (SymbolTable.insert_ok hinsert).2] at h
      simp only [ih h]
    | error other =>
      obtain ⟨hmem, hname⟩ := SymbolTable.mem_of_find? (SymbolTable.insert_error hinsert)
      rw [List.map_append, List.nodup_append] at h
      exact absurd hname (h.2.2 other.name (List.mem_map_of_mem hmem) d.symbol.name (by simp))

/-- Members of another order are the same ones, and so is what is reported of them. -/
theorem members_perm {α β : Type} (f : α → β × Lowering.Notes) {as bs : List α} (h : as.Perm bs) :
    (Lowering.members f bs).1.Perm (Lowering.members f as).1 ∧
      (Lowering.members f bs).2.diagnostics.Perm (Lowering.members f as).2.diagnostics := by
  rw [Lowering.members_eq, Lowering.members_eq]
  exact ⟨h.symm.map _, h.symm.flatMap_right _⟩

/-- In another order, declarations meet no error either and become the same types. -/
theorem Clean.perm (h : Clean sources table options ds) (hperm : ds.Perm ds')
    (htext : sources'.text? = sources.text?) :
    Clean sources' table options ds' ∧
      (Lowering.types sources' (enter sources' table ds').1 (enter sources' table ds').2.1).1.Perm
        (Lowering.types sources (enter sources table ds).1 (enter sources table ds).2.1).1 := by
  obtain ⟨hentered, hchecked, hlowered⟩ := h
  have hall : (enter sources table ds).2.1 = ds := congrArg (·.2.1) (enter_of_clean hentered)
  have htypes := types_enter sources table ds
  have hfaults := Compilation.faults_of_clean hchecked
  rw [hall] at htypes hfaults hlowered
  -- no two names are the same, whatever the order
  have hnodup : ((table.types ++ ds'.map symbol).map (·.name)).Nodup := by
    have hnames := (enter sources table ds).1.nodup
    rw [htypes] at hnames
    exact (((hperm.map symbol).append_left table.types).map _).nodup_iff.1 hnames
  have hall' : (enter sources' table ds').2 = (ds', []) := enter_of_nodup hnodup
  have htypes' := types_enter sources' table ds'
  rw [hall'] at htypes'
  have hagrees : (enter sources table ds).1.Agrees (enter sources' table ds').1 := by
    refine SymbolTable.agrees_of_perm ?_
    rw [htypes, htypes']
    exact (hperm.map symbol).append_left table.types
  have hknown : ∀ d ∈ ds, d.symbol ∈ (enter sources table ds).1.types := by
    intro d hd
    rw [htypes]
    exact List.mem_append_right _ (List.mem_map_of_mem hd)
  have hfaults' : ∀ d ∈ ds', faults (enter sources' table ds').1 options d.decl = [] := by
    intro d hd
    have hd := hperm.symm.subset hd
    exact faults_of_agrees hagrees (hknown d hd) id (hfaults d hd)
  -- each declaration is lowered as before
  have hfound : ∀ d ∈ ds, (enter sources table ds).1.find? d.decl.name.name = some d.symbol :=
    fun d hd => SymbolTable.find?_of_mem (hknown d hd)
  have hfound' : ∀ d ∈ ds', (enter sources' table ds').1.find? d.decl.name.name = some d.symbol :=
    fun d hd => hagrees.find?_eq_some (hfound d (hperm.symm.subset hd))
  rw [Lowering.types_eq hfound] at hlowered
  obtain ⟨hsame, hnotes⟩ := members_perm
    (fun d => Lowering.type sources' (enter sources' table ds').1 d.symbol d) hperm
  rw [Lowering.members_type_widen hagrees hknown (fun d _ => congrFun htext d.file) hfaults
    hlowered] at hsame hnotes
  rw [hall, hall', Lowering.types_eq hfound, Lowering.types_eq hfound']
  refine ⟨⟨?_, ?_, ?_⟩, hsame⟩
  · rw [hall']
    exact fun x hx => absurd hx List.not_mem_nil
  · rw [hall', check, List.flatMap_eq_nil_iff.2 fun d hd => by rw [hfaults' d hd, List.map_nil]]
    exact fun x hx => absurd hx List.not_mem_nil
  · rw [hall', Lowering.types_eq hfound']
    exact fun x hx => hlowered x (hnotes.subset hx)

end Declaration

/-! ## Compilations -/

namespace Compilation

variable {name : String} {units units' : List SourceUnit} {references : List Image}
  {options : CompileOptions}

/-- There is no error where none is met in parsing and in what is declared. -/
theorem hasErrors_eq_false_iff : (ofUnits name units references options).hasErrors = false ↔
    (parseUnits ⟨units⟩ units).2 = [] ∧ Declaration.Clean ⟨units⟩
      (Declaration.libraryTable references) options (parseUnits ⟨units⟩ units).1 := by
  constructor
  · intro hok
    have hclean := isError_of_ok hok
    simp only [ofUnits, List.forall_mem_append] at hclean
    obtain ⟨⟨⟨⟨hparsed, htaken⟩, hcheck⟩, hnotes⟩, -⟩ := hclean
    exact ⟨parseUnits_of_clean hparsed, htaken, hcheck, hnotes⟩
  · rintro ⟨hparsed, htaken, hcheck, hnotes⟩
    have hclean : ∀ d ∈ (ofUnits name units references options).diagnostics, d.isError = false := by
      simp only [ofUnits, List.forall_mem_append]
      refine ⟨⟨⟨⟨?_, htaken⟩, hcheck⟩, hnotes⟩, ?_⟩
      · rw [hparsed]
        exact fun d hd => absurd hd List.not_mem_nil
      · intro d hd
        split at hd
        · exact Declaration.isError_of_mem_checkEntryPoint hd
        · cases hd
    simpa [hasErrors, errors] using hclean

theorem parseUnits_perm (sources : Sources) (h : units.Perm units') :
    (parseUnits sources units).1.Perm (parseUnits sources units').1 ∧
      (parseUnits sources units).2.Perm (parseUnits sources units').2 := by
  have hparsed := h.map fun u => (u, Parsed.ofSource u.text)
  exact ⟨hparsed.flatMap_right _, hparsed.flatMap_right _⟩

/-- Units in another order are compiled without errors to the same types. -/
theorem ofUnits_of_perm (hperm : units.Perm units') (hnames : (units.map (·.name)).Nodup)
    (hok : (ofUnits name units references options).hasErrors = false) :
    (ofUnits name units' references options).hasErrors = false ∧
      (ofUnits name units' references options).types.Perm
        (ofUnits name units references options).types := by
  obtain ⟨hparsed, hclean⟩ := hasErrors_eq_false_iff.1 hok
  obtain ⟨hdeclared, herrors⟩ := parseUnits_perm ⟨units⟩ hperm
  rw [hparsed] at herrors
  have hparsed' : ∀ d ∈ (parseUnits ⟨units⟩ units').2, d.isError = false :=
    fun d hd => absurd (herrors.symm.subset hd) List.not_mem_nil
  obtain ⟨hclean', htypes⟩ := hclean.perm hdeclared (Sources.text?_of_perm hperm hnames)
  exact ⟨hasErrors_eq_false_iff.2 ⟨parseUnits_of_clean hparsed', hclean'⟩, htypes⟩

/-- The order of units, each under a name of its own, tells neither whether a program has errors nor
what its module holds, apart from the order in which the types stand in it. -/
theorem ofUnits_perm (hperm : units.Perm units') (hnames : (units.map (·.name)).Nodup) :
    (ofUnits name units' references options).hasErrors =
        (ofUnits name units references options).hasErrors ∧
      ((ofUnits name units references options).hasErrors = false →
        ∃ types, types.Perm (ofUnits name units references options).image.types ∧
          (ofUnits name units' references options).image =
            { (ofUnits name units references options).image with types }) := by
  have hnames' : (units'.map (·.name)).Nodup := (hperm.map _).nodup_iff.1 hnames
  refine ⟨?_, fun hok => ⟨_, (ofUnits_of_perm hperm hnames hok).2, rfl⟩⟩
  have hiff : (ofUnits name units' references options).hasErrors = false ↔
      (ofUnits name units references options).hasErrors = false :=
    ⟨fun hok => (ofUnits_of_perm hperm.symm hnames' hok).1,
      fun hok => (ofUnits_of_perm hperm hnames hok).1⟩
  cases h : (ofUnits name units references options).hasErrors with
  | false => exact hiff.2 h
  | true =>
    refine Bool.eq_true_of_not_eq_false fun h' => ?_
    exact Bool.false_ne_true ((hiff.1 h').symm.trans h)

end Compilation

/-- A type that is used before the unit of its base is read, and a base that uses it in turn. -/
def entwinedUnits : List SourceUnit :=
  [⟨"M.gen", "type B : D { static let n = D.F(); fn G(x) { return F(x); } }"⟩,
    ⟨"N.gen", "type D : A { static fn H() { return new B().G(B.n); } }"⟩]

theorem ofUnits_perm_entwined :
    entwinedUnits.Perm entwinedUnits.reverse ∧ (entwinedUnits.map (·.name)).Nodup ∧
      (Compilation.ofUnits "M" entwinedUnits.reverse leafReferences .library).hasErrors = false ∧
      ∃ types, types.Perm (Compilation.ofUnits "M" entwinedUnits leafReferences
          .library).image.types ∧
        (Compilation.ofUnits "M" entwinedUnits.reverse leafReferences .library).image =
          { (Compilation.ofUnits "M" entwinedUnits leafReferences .library).image with types } := by
  have hperm : entwinedUnits.Perm entwinedUnits.reverse := (List.reverse_perm entwinedUnits).symm
  have hnames : (entwinedUnits.map (·.name)).Nodup := by decide
  have hok : (Compilation.ofUnits "M" entwinedUnits leafReferences .library).hasErrors = false := by
    decide +kernel
  obtain ⟨herrors, himage⟩ := Compilation.ofUnits_perm hperm hnames
  exact ⟨hperm, hnames, herrors.trans hok, himage hok⟩

end GenLang
