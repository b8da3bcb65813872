import Mathlib.Order.WellFoundedSet
import GenLang.Proofs.Linking.Hierarchies
import GenLang.Proofs.Linking.Stages

/-!
# Cycles of bases

The search for a cycle follows every base that is named, known or not, once. What it says of a name
is whether base edges between types of the table lead from the name back to it. No type of a library
lies on a cycle, as each library was checked when it was compiled, and a later module adds no edge
between types that were there before.
-/

namespace GenLang

namespace SymbolTable

/-- One type of a table names another one as its base. -/
def HasBase (s : SymbolTable) (name base : String) : Prop :=
  ∃ t ∈ s.types, t.name = name ∧ base ∈ t.bases ∧ base ∈ s.types.map (·.name)

/-- One or more bases lead from a type back to it. -/
def OnCycle (s : SymbolTable) (name : String) : Prop :=
  Relation.TransGen s.HasBase name name

variable {s s' : SymbolTable} {name base : String}

theorem hasBase_iff :
    s.HasBase name base ↔ base ∈ s.basesOf name ∧ base ∈ s.types.map (·.name) := by
  constructor
  · rintro ⟨t, ht, rfl, hbase, hknown⟩
    rw [basesOf_eq ht]
    exact ⟨hbase, hknown⟩
  · rintro ⟨hbase, hknown⟩
    rcases s.known_or_basesOf_eq_nil name with hname | hnil
    · obtain ⟨t, ht, rfl⟩ := List.mem_map.1 hname
      rw [basesOf_eq ht] at hbase
      exact ⟨t, ht, rfl, hbase, hknown⟩
    · rw [hnil] at hbase
      exact absurd hbase List.not_mem_nil

theorem HasBase.known (h : s.HasBase name base) :
    name ∈ s.types.map (·.name) ∧ base ∈ s.types.map (·.name) := by
  obtain ⟨t, ht, rfl, -, hbase⟩ := h
  exact ⟨List.mem_map_of_mem ht, hbase⟩

/-- A name that is not known has no bases, so a path to one that is known passes none. -/
theorem reaches_iff_of_known (hbase : base ∈ s.types.map (·.name)) :
    Graph.Reaches s.basesOf name base ↔ Relation.ReflTransGen s.HasBase name base := by
  constructor
  · intro h
    -- from the end backwards, since what is known is known of the end
    have hboth : name ∈ s.types.map (·.name) ∧ Relation.ReflTransGen s.HasBase name base := by
      induction h using Relation.ReflTransGen.head_induction_on with
      | refl => exact ⟨hbase, .refl⟩
      | @head n b hedge _ ih =>
        have hn := (s.known_or_basesOf_eq_nil n).resolve_right fun hnil => by
          rw [hnil] at hedge
          exact List.not_mem_nil hedge
        exact ⟨hn, .head (hasBase_iff.2 ⟨hedge, ih.1⟩) ih.2⟩
    exact hboth.2
  · exact Relation.ReflTransGen.mono (fun _ _ h => (hasBase_iff.1 h).1) _ _

/-- The search finds the types that lie on a cycle. -/
theorem inCycle_iff_onCycle : s.inCycle name = true ↔ s.OnCycle name := by
  rw [inCycle_iff, OnCycle, Relation.TransGen.head'_iff]
  rcases s.known_or_basesOf_eq_nil name with hname | hnil
  · refine exists_congr fun b => ?_
    rw [reaches_iff_of_known hname, hasBase_iff, and_assoc]
    refine and_congr_right fun _ => ⟨fun h => ⟨?_, h⟩, And.right⟩
    rcases Relation.ReflTransGen.cases_head h with rfl | ⟨c, hc, -⟩
    · exact hname
    · exact hc.known.1
  · constructor
    · rintro ⟨b, hb, -⟩
      rw [hnil] at hb
      exact absurd hb List.not_mem_nil
    · rintro ⟨b, hb, -⟩
      rw [hasBase_iff, hnil] at hb
      exact absurd hb.1 List.not_mem_nil

instance : DecidablePred s.OnCycle :=
  fun _ => decidable_of_iff _ inCycle_iff_onCycle

theorem OnCycle.known (h : s.OnCycle name) : name ∈ s.types.map (·.name) := by
  obtain ⟨b, hb, -⟩ := Relation.TransGen.head'_iff.1 h
  exact hb.known.1

theorem OnCycle.mono (hedges : ∀ name base, s.HasBase name base → s'.HasBase name base)
    (h : s.OnCycle name) : s'.OnCycle name :=
  Relation.TransGen.mono hedges _ _ h

/-- A table has finitely many types, so that paths along bases end if none of them is a cycle. -/
theorem wellFounded_of_no_cycles (h : ∀ name, ¬ s.OnCycle name) :
    WellFounded fun base name => s.HasBase name base := by
  -- on a finite set a strict order is well-founded; paths are one if none leads back
  let below : String → String → Prop := fun base name => Relation.TransGen s.HasBase name base
  have : IsStrictOrder String below :=
    { irrefl := h
      trans := fun _ _ _ hab hbc => Relation.TransGen.trans hbc hab }
  have hfinite : {n | n ∈ s.types.map (·.name)}.Finite := List.finite_toSet _
  have hbelow : {n | n ∈ s.types.map (·.name)}.WellFoundedOn below := hfinite.wellFoundedOn
  refine Subrelation.wf (fun hedge => ?_) (Set.wellFoundedOn_iff.1 hbelow)
  exact ⟨.single hedge, hedge.known.2, hedge.known.1⟩

end SymbolTable

/-! ## What is reported -/

theorem Sources.has_diagnostic (sources : Sources) (code reported : Code) (file : String)
    (span : Text.Span) (message : String) :
    (sources.diagnostic reported file span message).has code = (reported == code) := by
  rw [Diagnostic.has, sources.code_diagnostic, Bool.eq_iff_iff, beq_iff_eq, beq_iff_eq]
  exact Code.text_injective.eq_iff

namespace Declaration

variable {s : SymbolTable} {options : CompileOptions} {decl : TypeDecl}

/-- A cycle is reported at the name of the type that lies on it. -/
def cycleFault (decl : TypeDecl) : Code × Text.Span × String :=
  (.inheritanceCycle, decl.name.span,
    "Circular base type dependency involving '" ++ decl.name.name ++ "'")

theorem filter_code_eq_nil {found : List (Code × Text.Span × String)} {codes : List Code}
    (h : ∀ fault ∈ found, fault.1 ∈ codes) {code : Code} (hcode : code ∉ codes) :
    found.filter (·.1 == code) = [] := by
  refine List.filter_eq_nil_iff.2 fun fault hfault heq => hcode ?_
  rw [← beq_iff_eq.1 heq]
  exact h fault hfault

theorem filter_faults : (faults s options decl).filter (·.1 == .inheritanceCycle) =
    if s.inCycle decl.name.name then [cycleFault decl] else [] := by
  have hmembers : ∀ fault ∈ (duplicateMembers [] decl.members).map fun m =>
      (Code.duplicateMember, m.span, "The type '" ++ decl.name.name ++
        "' already contains a definition for '" ++ m.name ++ "'"),
      fault.1 ∈ [Code.duplicateMember] := by
    rintro _ hfault
    obtain ⟨m, -, rfl⟩ := List.mem_map.1 hfault
    exact List.mem_cons_self
  have hmethods : ∀ fault ∈ decl.methods.flatMap (methodFaults s decl options),
      fault.1 ∈ [Code.nativeNotAllowed, .invalidMethodBody, .unknownTypeName] := by
    intro fault hfault
    obtain ⟨m, -, hfault⟩ := List.mem_flatMap.1 hfault
    exact code_of_mem_methodFaults fault hfault
  have hcapabilities : ∀ fault ∈ (if decl.kind == .type && !decl.isAbstract then
      capabilityFaults s decl else []), fault.1 ∈ [Code.missingCapabilityMember] := by
    intro fault hfault
    split at hfault
    · exact List.mem_singleton.2 (code_of_mem_capabilityFaults fault hfault)
    · cases hfault
  -- Every other check has codes of its own, so that only this one is left.
  rw [faults]
  simp only [List.filter_append]
  rw [filter_code_eq_nil hmembers (by decide),
    filter_code_eq_nil code_of_mem_baseFaults (by decide),
    filter_code_eq_nil hmethods (by decide), filter_code_eq_nil hcapabilities (by decide),
    List.nil_append, List.nil_append, List.append_nil, List.append_nil, ← cycleFault]
  cases s.inCycle decl.name.name <;> rfl

theorem filter_check {sources : Sources} {ds : List Declaration} :
    (check sources s options ds).filter (·.has .inheritanceCycle) =
      (ds.filter fun d => s.OnCycle d.decl.name.name).map fun d =>
        sources.diagnostic .inheritanceCycle d.file d.decl.name.span
          ("Circular base type dependency involving '" ++ d.decl.name.name ++ "'") := by
  induction ds with
  | nil => rfl
  | cons d ds ih =>
    have hhas (fault : Code × Text.Span × String) : Diagnostic.has .inheritanceCycle
        (sources.diagnostic fault.1 d.file fault.2.1 fault.2.2) =
          (fault.1 == .inheritanceCycle) :=
      sources.has_diagnostic ..
    rw [check] at ih ⊢
    rw [List.flatMap_cons, List.filter_append, ih, List.filter_map]
    simp only [Function.comp_def, hhas, filter_faults]
    -- a declaration is reported once or not at all
    by_cases hcycle : s.OnCycle d.decl.name.name
    · rw [if_pos (SymbolTable.inCycle_iff_onCycle.2 hcycle), List.filter_cons,
        if_pos (decide_eq_true hcycle)]
      rfl
    · rw [if_neg fun h => hcycle (SymbolTable.inCycle_iff_onCycle.1 h), List.filter_cons,
        if_neg fun h => hcycle (of_decide_eq_true h)]
      rfl

theorem not_onCycle_of_no_faults (h : faults s options decl = []) :
    ¬ s.OnCycle decl.name.name := by
  intro hcycle
  have hfilter : (faults s options decl).filter (·.1 == .inheritanceCycle) = _ := filter_faults
  rw [h, if_pos (SymbolTable.inCycle_iff_onCycle.2 hcycle)] at hfilter
  cases hfilter

end Declaration

/-! ## No cycles -/

namespace MadeOf

variable {libraries : List Image} {image : Image} {options : CompileOptions} {s : SymbolTable}
  {ds : List Declaration} (h : MadeOf libraries image options s ds)

include h

/-- If no type of the libraries lies on a cycle, none that a module is compiled with does. -/
theorem not_onCycle (hstack : Stack libraries)
    (hlibraries : ∀ name, ¬ (Declaration.libraryTable libraries).OnCycle name)
    (name : String) : ¬ s.OnCycle name := by
  intro hcycle
  have htypes := Declaration.types_libraryTable hstack.types_nodup
  have hextends : (Declaration.libraryTable libraries).Extends s := by
    refine ⟨hstack.closed, ?_⟩
    rw [h.types, htypes]
    exact List.prefix_append _ _
  obtain ⟨t, ht, rfl⟩ := List.mem_map.1 hcycle.known
  rw [h.types, ← htypes] at ht
  rcases List.mem_append.1 ht with ht | ht
  · -- the bases of a type of a library lead to types of libraries only
    rw [← SymbolTable.inCycle_iff_onCycle, hextends.inCycle_eq ht,
      SymbolTable.inCycle_iff_onCycle] at hcycle
    exact hlibraries _ hcycle
  · obtain ⟨d, hd, rfl⟩ := List.mem_map.1 ht
    exact Declaration.not_onCycle_of_no_faults (h.faults d hd) hcycle

/-- A library is based on what its declarations name. -/
theorem hasBase_of_libraryTable
    (hnodup : ((Declaration.libraryTypes (libraries ++ [image])).map (·.name)).Nodup)
    {name base : String}
    (hbase : (Declaration.libraryTable (libraries ++ [image])).HasBase name base) :
    s.HasBase name base := by
  obtain ⟨t, ht, rfl, hbase, hknown⟩ := hbase
  have htypes : (Declaration.libraryTable (libraries ++ [image])).types =
      Declaration.libraryTypes libraries ++ image.types.map (TypeSymbol.ofDef · image.name) := by
    rw [Declaration.types_libraryTable hnodup, Declaration.libraryTypes, List.flatMap_append,
      List.flatMap_singleton, ← Declaration.libraryTypes]
  have hnames : (Declaration.libraryTable (libraries ++ [image])).types.map (·.name) =
      s.types.map (·.name) := by
    rw [htypes, h.types, List.map_append, List.map_append, map_name_of_declared h.declared,
      List.map_map]
    rfl
  rw [hnames] at hknown
  rw [htypes] at ht
  rcases List.mem_append.1 ht with ht | ht
  · refine ⟨t, ?_, rfl, hbase, hknown⟩
    rw [h.types]
    exact List.mem_append_left _ ht
  · obtain ⟨u, hu, rfl⟩ := List.mem_map.1 ht
    obtain ⟨d, hd, hdeclared⟩ := Lowering.exists_of_forall₂_right h.declared hu
    have hfaults := Declaration.baseFaults_of_no_faults (h.faults d hd)
    -- the image keeps bases as references, in another order than they were written
    refine ⟨d.symbol, ?_, hdeclared.shows.name, (hdeclared.mem_bases_iff hfaults base).2 hbase,
      hknown⟩
    rw [h.types]
    exact List.mem_append_right _ (List.mem_map_of_mem hd)

end MadeOf

/-- No type of a resolved set of libraries lies on a cycle. -/
theorem References.not_onCycle_of_resolve {sources : List LibrarySource} {patience left : Patience}
    {references : References} (hresolve : resolve sources patience = .ok (references, left))
    (hwritable : Writable sources references) (name : String) :
    ¬ (Declaration.libraryTable references).OnCycle name := by
  have hstack := stack_of_resolve hresolve hwritable
  have hbuilt := built_of_resolve hresolve hwritable
  -- one library after the other, as each was compiled against those before it
  have hall (n : Nat) (hn : n ≤ references.length) (name : String) :
      ¬ (Declaration.libraryTable (references.take n)).OnCycle name := by
    induction n generalizing name with
    | zero => exact fun h => absurd h.known List.not_mem_nil
    | succ n ih =>
      obtain ⟨s, ds, hmade⟩ := hbuilt n references[n] (List.getElem?_eq_getElem hn)
      have htake : references.take (n + 1) = references.take n ++ [references[n]] := by
        rw [List.take_succ_eq_append_getElem hn]
      have hnodup := (hstack.take (n + 1)).types_nodup
      rw [htake] at hnodup ⊢
      intro hcycle
      refine hmade.not_onCycle (hstack.take n) (ih (Nat.le_of_lt hn)) name ?_
      exact hcycle.mono fun _ _ => hmade.hasBase_of_libraryTable hnodup
  have hlast := hall references.length (Nat.le_refl _) name
  rwa [List.take_length] at hlast

namespace Compilation

variable {name : String} {units : List SourceUnit} {options : CompileOptions}

theorem wellFounded_hasBase {references : References} (hstack : Stack references)
    (hlibraries : ∀ name, ¬ (Declaration.libraryTable references).OnCycle name)
    (hok : (ofUnits name units references options).hasErrors = false) :
    WellFounded fun base name =>
      (ofUnits name units references options).model.symbols.HasBase name base := by
  obtain ⟨ds, hmade, -⟩ := madeOf_of_ok hok hstack.types_nodup
  exact SymbolTable.wellFounded_of_no_cycles (hmade.not_onCycle hstack hlibraries)

end Compilation

/-- The search for a cycle ends and finds the types that lie on one, those that the compilation
declares are reported once each, in order, and along the bases of a compilation without errors there
is no way on for ever. -/
theorem inheritance_cycles_detected :
    (∀ (s : SymbolTable) (name : String),
      Graph.Visits s.basesOf (s.basesOf name) [] (s.reachable (s.basesOf name)) ∧
        (s.inCycle name = true ↔ s.OnCycle name)) ∧
      (∀ (name : String) (units : List SourceUnit) (references : List Image)
        (options : CompileOptions),
        (Compilation.ofUnits name units references options).diagnostics.filter
            (·.has .inheritanceCycle) =
          ((Compilation.accepted units references).filter fun d => (Compilation.ofUnits name units
              references options).model.symbols.OnCycle d.decl.name.name).map fun d =>
            Sources.diagnostic ⟨units⟩ .inheritanceCycle d.file d.decl.name.span
              ("Circular base type dependency involving '" ++ d.decl.name.name ++ "'")) ∧
      ∀ (sources : List LibrarySource) (patience left : Patience) (references : References)
        (name : String) (units : List SourceUnit) (options : CompileOptions),
        References.resolve sources patience = .ok (references, left) →
        References.Writable sources references →
        (Compilation.ofUnits name units references options).hasErrors = false →
        WellFounded fun base type =>
          (Compilation.ofUnits name units references options).model.symbols.HasBase type base := by
  refine ⟨?_, ?_, ?_⟩
  · exact fun s name => ⟨s.visits_basesOf name, SymbolTable.inCycle_iff_onCycle⟩
  · intro name units references options
    rw [Compilation.filter_inheritanceCycle]
    exact Declaration.filter_check
  · intro sources patience left references name units options hresolve hwritable hok
    exact Compilation.wellFounded_hasBase (References.stack_of_resolve hresolve hwritable)
      (References.not_onCycle_of_resolve hresolve hwritable) hok

/-- A type based on one of a library, which has a capability of the library. -/
theorem inheritance_cycles_detected_leaf :
    References.resolve leafSources none = .ok (leafReferences, none) ∧
      References.Writable leafSources leafReferences ∧
      (Compilation.ofUnits "M" leafUnits leafReferences .library).hasErrors = false ∧
      WellFounded fun base type => (Compilation.ofUnits "M" leafUnits leafReferences
        .library).model.symbols.HasBase type base :=
  ⟨resolve_leaf, writable_leaf, leaf_evaluates.2.2,
    inheritance_cycles_detected.2.2 leafSources none none leafReferences "M" leafUnits .library
      resolve_leaf writable_leaf leaf_evaluates.2.2⟩

/-- What leads to a cycle does not lie on it. -/
example : ((Compilation.ofUnits "M"
    [⟨"M.gen", "type A : B {} type B : D, A {} type C : A {}"⟩] [] .library).diagnostics.filter
      (·.has .inheritanceCycle)).map (·.message) =
        ["Circular base type dependency involving 'A'",
          "Circular base type dependency involving 'B'"] := by
  decide +kernel

end GenLang
