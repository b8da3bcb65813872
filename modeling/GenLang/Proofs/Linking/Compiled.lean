import GenLang.Proofs.Linking.Lowering
import GenLang.Compilation

/-!
# What a compilation without errors gives

Every type of its module comes from a declaration that the table has entered, looks like the symbol
of that declaration, and relies on nothing that the table does not know.
-/

namespace GenLang

/-- A definition is as its symbol tells, apart from what it is based on. -/
structure Shows (s : TypeSymbol) (t : TypeDef) : Prop where
  name : s.name = t.name
  kind : s.kind = t.kind
  isAbstract : s.isAbstract = t.isAbstract
  isStatic : s.isStatic = t.isStatic
  generics : s.generics = t.generics
  fields : s.fields = t.fields.map fun f => ⟨f.name, f.isStatic⟩
  methods : s.methods = t.methods.map .ofDef

theorem shows_ofDef (t : TypeDef) (library : String) : Shows (.ofDef t library) t :=
  ⟨rfl, rfl, rfl, rfl, rfl, rfl, rfl⟩

/-- The types that a declaration names as its bases. -/
def Declaration.bases (s : SymbolTable) (d : Declaration) : List TypeSymbol :=
  d.decl.bases.filterMap fun b => s.find? b.name

/-- A definition is as it was declared. -/
structure Declared (s : SymbolTable) (d : Declaration) (t : TypeDef) : Prop where
  shows : Shows d.symbol t
  base : t.base = ((d.bases s).find? (!·.isCapability)).map (·.ref)
  capabilities : t.capabilities = ((d.bases s).filter (·.isCapability)).map (·.ref)

/-- Types have the names that they were declared with. -/
theorem map_name_of_declared {s : SymbolTable} {ds : List Declaration} {ts : List TypeDef}
    (h : List.Forall₂ (Declared s) ds ts) :
    (ds.map Declaration.symbol).map (·.name) = ts.map (·.name) := by
  rw [List.map_map]
  exact Lowering.map_eq_of_forall₂ (fun _ _ h => h.shows.name) h

/-- A class was declared as a type. -/
theorem Declared.kind_eq {s : SymbolTable} {d : Declaration} {t : TypeDef} (h : Declared s d t)
    (hkind : t.kind = .class_) : d.decl.kind = .type := by
  have hsymbol := h.shows.kind.trans hkind
  cases hdecl : d.decl.kind with
  | type => rfl
  | capability => simp [Declaration.symbol, hdecl] at hsymbol

/-- What a declaration becomes. -/
structure Lowered (s : SymbolTable) (d : Declaration) (t : TypeDef) : Prop extends
    Declared s d t where
  known : AllKnown s t.links
  sitesKnown : SitesKnown s t.sites

namespace Lowering

variable {α β : Type} {c : LoweringContext}

/-- None of the diagnostics is an error. -/
def Notes.Clean (n : Notes) : Prop :=
  ∀ d ∈ n.diagnostics, d.isError = false

theorem member_of_clean {body : Lowering α} {P : α → Prop} (h : Ensures c body P)
    (hclean : (member c body).2.Clean) : P (member c body).1 :=
  (h {} _ _ rfl fun d hd => hclean d (Array.mem_toList_iff.2 hd)).2

theorem members_eq (f : α → β × Notes) (as : List α) :
    members f as = (as.map fun a => (f a).1, ⟨as.flatMap fun a => (f a).2.diagnostics,
      as.flatMap fun a => (f a).2.invocations⟩) := by
  induction as with
  | nil => rfl
  | cons a as ih => rw [members, ih, List.map_cons, List.flatMap_cons, List.flatMap_cons]; rfl

/-- Every member is lowered without errors if all of them are. -/
theorem members_of_clean {f : α → β × Notes} {as : List α} {P : α → β → Prop}
    (h : ∀ a ∈ as, (f a).2.Clean → P a (f a).1) (hclean : (members f as).2.Clean) :
    List.Forall₂ P as (members f as).1 := by
  rw [members_eq] at hclean ⊢
  rw [List.forall₂_map_right_iff, List.forall₂_same]
  intro a ha
  exact h a ha fun d hd => hclean d (List.mem_flatMap.2 ⟨a, ha, hd⟩)

theorem clean_append {a b : Notes} (h : (a.append b).Clean) : a.Clean ∧ b.Clean :=
  List.forall_mem_append.1 h

theorem type_of_clean {sources : Sources} {s : SymbolTable} {d : Declaration}
    (hclean : (type sources s d.symbol d).2.Clean) :
    Lowered s d (type sources s d.symbol d).1 := by
  obtain ⟨hfields, hmethods⟩ := clean_append hclean
  have hfs := members_of_clean (fun f _ h => member_of_clean (ensures_field f) h) hfields
  have hms := members_of_clean (fun m _ h => member_of_clean (ensures_method m) h) hmethods
  have hsites : SitesKnown s (type sources s d.symbol d).1.sites := by
    rw [TypeDef.sites, sitesKnown_append]
    constructor
    · intro site hsite
      obtain ⟨f, hf, hsite⟩ := List.mem_flatMap.1 hsite
      obtain ⟨f', -, hf'⟩ := exists_of_forall₂_right hfs hf
      exact hf'.2 site hsite
    · intro site hsite
      obtain ⟨m, hm, hsite⟩ := List.mem_flatMap.1 hsite
      obtain ⟨m', -, hm'⟩ := exists_of_forall₂_right hms hm
      exact hm'.2 site hsite
  have hknown : AllKnown s (type sources s d.symbol d).1.links := by
    rw [TypeDef.links_eq]
    refine List.forall_mem_append.2 ⟨fun l hl => ?_, hsites.allKnown⟩
    -- Bases and capabilities are what the table found.
    obtain ⟨r, hr, rfl⟩ := List.mem_map.1 hl
    have hbases : ∃ t ∈ d.bases s, t.ref = r := by
      rcases List.mem_append.1 hr with hr | hr
      · obtain ⟨t, ht, rfl⟩ := Option.map_eq_some_iff.1 (Option.mem_toList.1 hr)
        exact ⟨t, List.mem_of_find?_eq_some ht, rfl⟩
      · obtain ⟨t, ht, rfl⟩ := List.mem_map.1 hr
        exact ⟨t, (List.mem_filter.1 ht).1, rfl⟩
    obtain ⟨t, ht, rfl⟩ := hbases
    obtain ⟨b, -, hb⟩ := List.mem_filterMap.1 ht
    exact ⟨t, (SymbolTable.mem_of_find? hb).1, rfl⟩
  refine ⟨⟨⟨rfl, rfl, rfl, rfl, rfl, ?_, ?_⟩, rfl, rfl⟩, hknown, hsites⟩
  · exact map_eq_of_forall₂ (fun f f' h => h.1.symm) hfs
  · exact map_eq_of_forall₂ (fun m m' h => h.1.symm) hms

/-- Declarations that a table has entered are lowered as what their symbols stand for. -/
theorem types_eq {sources : Sources} {s : SymbolTable} {ds : List Declaration}
    (hentered : ∀ d ∈ ds, s.find? d.decl.name.name = some d.symbol) :
    types sources s ds = members (fun d => type sources s d.symbol d) ds := by
  have hpairs : (ds.filterMap fun d => (s.find? d.decl.name.name).map (·, d)) =
      ds.map fun d => (d.symbol, d) := by
    rw [← List.filterMap_eq_map]
    refine List.filterMap_congr fun d hd => ?_
    rw [hentered d hd]
    rfl
  rw [types, hpairs, members_eq, members_eq, List.map_map, List.flatMap_map, List.flatMap_map]
  rfl

/-- Every declaration of a table that entered them becomes a type of its own. -/
theorem types_of_clean {sources : Sources} {s : SymbolTable} {ds : List Declaration}
    (hentered : ∀ d ∈ ds, s.find? d.decl.name.name = some d.symbol)
    (hclean : (types sources s ds).2.Clean) :
    List.Forall₂ (Lowered s) ds (types sources s ds).1 := by
  rw [types_eq hentered] at hclean ⊢
  exact members_of_clean (fun d _ => type_of_clean) hclean

end Lowering

namespace Declaration

variable {s : SymbolTable} {options : CompileOptions} {decl : TypeDecl}

/-- The codes of faults of declarations. -/
def codes : List Code :=
  [.duplicateMember, .unknownBaseType, .inheritanceCycle, .invalidBaseList,
   .missingCapabilityMember, .invalidMethodBody, .nativeNotAllowed, .unknownTypeName]

theorem code_of_mem_baseFaults {first : Option String} {bs : List Ident} :
    ∀ fault ∈ baseFaults s decl first bs, fault.1 ∈ [Code.unknownBaseType, .invalidBaseList] := by
  fun_induction baseFaults s decl first bs
  case case1 => exact fun _ h => absurd h List.not_mem_nil
  case case2 ih | case4 ih | case5 ih => exact List.forall_mem_cons.2 ⟨by simp, ih⟩
  case case3 ih | case6 ih => exact ih

theorem code_of_mem_methodFaults {m : MethodDecl} :
    ∀ fault ∈ methodFaults s decl options m,
      fault.1 ∈ [Code.nativeNotAllowed, .invalidMethodBody, .unknownTypeName] := by
  intro fault hfault
  simp only [methodFaults, List.mem_append, List.mem_map] at hfault
  rcases hfault with (hfault | hfault) | ⟨a, -, rfl⟩
  · split at hfault
    · obtain rfl := List.mem_singleton.1 hfault
      simp
    · cases hfault
  · split at hfault
    · obtain rfl := List.mem_singleton.1 hfault
      simp
    · cases hfault
  · simp

theorem code_of_mem_capabilityFaults :
    ∀ fault ∈ capabilityFaults s decl, fault.1 = .missingCapabilityMember := by
  intro fault hfault
  obtain ⟨t, -, hfault⟩ := List.mem_flatMap.1 hfault
  obtain ⟨m, -, rfl⟩ := List.mem_map.1 hfault
  rfl

theorem code_of_mem_faults : ∀ fault ∈ faults s options decl, fault.1 ∈ codes := by
  intro fault hfault
  simp only [faults, List.mem_append, List.mem_map, List.mem_flatMap] at hfault
  rcases hfault with (((⟨m, -, rfl⟩ | hfault) | hfault) | ⟨m, -, hfault⟩) | hfault
  · exact List.mem_cons_self
  · have hcodes : [Code.unknownBaseType, .invalidBaseList] ⊆ codes := by decide
    exact hcodes (code_of_mem_baseFaults fault hfault)
  · split at hfault
    · obtain rfl := List.mem_singleton.1 hfault
      simp [codes]
    · cases hfault
  · have hcodes : [Code.nativeNotAllowed, .invalidMethodBody, .unknownTypeName] ⊆ codes := by decide
    exact hcodes (code_of_mem_methodFaults fault hfault)
  · split at hfault
    · rw [code_of_mem_capabilityFaults fault hfault]
      simp [codes]
    · cases hfault

/-- Whatever is wrong with a declaration is an error. -/
theorem severity_of_mem_faults : ∀ fault ∈ faults s options decl, fault.1.severity = .error := by
  have hcodes : ∀ code ∈ codes, code.severity = .error := by decide
  exact fun fault hfault => hcodes _ (code_of_mem_faults fault hfault)

section

variable (h : faults s options decl = [])

include h

theorem baseFaults_of_no_faults : baseFaults s decl none decl.bases = [] := by
  simp only [faults, List.append_eq_nil_iff] at h
  exact h.1.1.1.2

theorem methodFaults_of_no_faults {m : MethodDecl} (hm : m ∈ decl.methods) :
    methodFaults s decl options m = [] := by
  simp only [faults, List.append_eq_nil_iff] at h
  exact List.flatMap_eq_nil_iff.1 h.1.2 m hm

theorem capabilityFaults_of_no_faults (hkind : decl.kind = .type)
    (habstract : decl.isAbstract = false) : capabilityFaults s decl = [] := by
  have hlast := (List.append_eq_nil_iff.1 h).2
  rwa [hkind, habstract] at hlast

end

end Declaration

namespace Compilation

variable {name : String} {units : List SourceUnit} {references : List Image}
  {options : CompileOptions}

theorem isError_of_ok {c : Compilation} (h : c.hasErrors = false) :
    ∀ d ∈ c.diagnostics, d.isError = false := by
  simpa [hasErrors, errors] using h

theorem faults_of_clean {sources : Sources} {s : SymbolTable} {options : CompileOptions}
    {ds : List Declaration}
    (h : ∀ x ∈ Declaration.check sources s options ds, x.isError = false) :
    ∀ d ∈ ds, Declaration.faults s options d.decl = [] := by
  intro d hd
  rw [List.eq_nil_iff_forall_not_mem]
  intro fault hfault
  have hmem : sources.diagnostic fault.1 d.file fault.2.1 fault.2.2 ∈
      Declaration.check sources s options ds :=
    List.mem_flatMap.2 ⟨d, hd, List.mem_map.2 ⟨fault, hfault, rfl⟩⟩
  have herror := h _ hmem
  rw [Lowering.isError_diagnostic, Declaration.severity_of_mem_faults fault hfault] at herror
  cases herror

/-- What the types of a module come from, if there is no error: declarations without faults that the
table has behind the types of the libraries. -/
theorem declarations_of_ok (h : (ofUnits name units references options).hasErrors = false) :
    ∃ ds : List Declaration,
      (ofUnits name units references options).model.symbols.types =
        (Declaration.libraryTable references).types ++ ds.map Declaration.symbol ∧
      List.Forall₂ (Lowered (ofUnits name units references options).model.symbols) ds
        (ofUnits name units references options).types ∧
      (∀ d ∈ ds, Declaration.faults (ofUnits name units references options).model.symbols options
        d.decl = []) ∧
      ∀ d ∈ ds, d ∈ (parseUnits ⟨units⟩ units).1 := by
  have hclean := isError_of_ok h
  simp only [ofUnits, List.forall_mem_append] at hclean
  obtain ⟨⟨⟨-, hcheck⟩, hnotes⟩, -⟩ := hclean
  refine ⟨_, Declaration.types_enter _ _ _, ?_, faults_of_clean hcheck,
    fun d hd => (Declaration.accepted_sublist _ _ _).subset hd⟩
  exact Lowering.types_of_clean (fun d hd => Declaration.find?_enter hd) hnotes

/-- What lowering without errors makes sure of for a type holds of every type of a module, if there
is no error. -/
theorem types_of_ok {P : TypeDef → Prop}
    (hP : ∀ {sources : Sources} {table : SymbolTable} {d : Declaration},
      (Lowering.type sources table d.symbol d).2.Clean →
      P (Lowering.type sources table d.symbol d).1)
    (h : (ofUnits name units references options).hasErrors = false) :
    ∀ t ∈ (ofUnits name units references options).image.types, P t := by
  have hclean := isError_of_ok h
  simp only [ofUnits, List.forall_mem_append] at hclean
  obtain ⟨⟨-, hnotes⟩, -⟩ := hclean
  intro t ht
  simp only [image, ofUnits] at ht
  rw [Lowering.types_eq fun d hd => Declaration.find?_enter hd] at hnotes ht
  have hall := Lowering.members_of_clean (P := fun _ t => P t) (fun d _ => hP) hnotes
  obtain ⟨_, -, ht⟩ := Lowering.exists_of_forall₂_right hall ht
  exact ht

end Compilation

end GenLang
