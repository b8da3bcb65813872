import GenLang.Proofs.Linking.Layers
import GenLang.Proofs.Linking.Soundness

/-!
# Compiled and loaded hierarchies agree

The table of a compilation without errors and the hierarchy its module is loaded into mirror each
other: the table follows the names that bases were written as, the hierarchy the references that
they became.
-/

namespace GenLang

/-! ## Bases without faults -/

namespace Declaration

variable {s : SymbolTable} {decl : TypeDecl}

/-- Every base is known, and one at most is no capability. -/
theorem bases_of_no_faults {first : Option String} {bs : List Ident}
    (h : baseFaults s decl first bs = []) :
    (∀ b ∈ bs, ∃ t, s.find? b.name = some t) ∧
      ∀ t ∈ bs.filterMap fun b => s.find? b.name, t.isCapability = false →
        first = none ∧
          (bs.filterMap fun b => s.find? b.name).find? (!·.isCapability) = some t := by
  fun_induction baseFaults s decl first bs
  case case1 => exact ⟨fun _ h => absurd h List.not_mem_nil, fun _ h => absurd h List.not_mem_nil⟩
  -- an unknown base, a class below a capability, a second class: each is a fault
  case case2 | case4 | case5 => cases h
  case case3 first b bs t hfind hcapability ih =>
    obtain ⟨hknown, hsingle⟩ := ih h
    refine ⟨List.forall_mem_cons.2 ⟨⟨t, hfind⟩, hknown⟩, ?_⟩
    have hcons : (b :: bs).filterMap (fun b => s.find? b.name) =
        t :: bs.filterMap fun b => s.find? b.name := List.filterMap_cons_some hfind
    rw [hcons]
    intro u hu hclass
    rcases List.mem_cons.1 hu with rfl | hu
    · rw [hcapability] at hclass
      cases hclass
    · rw [List.find?_cons, hcapability]
      exact hsingle u hu hclass
  -- A class is taken as the first one, and behind it there is none.
  case case6 b bs t hfind hclass _ ih =>
    obtain ⟨hknown, hsingle⟩ := ih h
    refine ⟨List.forall_mem_cons.2 ⟨⟨t, hfind⟩, hknown⟩, ?_⟩
    have hcons : (b :: bs).filterMap (fun b => s.find? b.name) =
        t :: bs.filterMap fun b => s.find? b.name := List.filterMap_cons_some hfind
    rw [hcons]
    intro u hu hnone
    rcases List.mem_cons.1 hu with rfl | hu
    · rw [List.find?_cons, hnone]
      exact ⟨rfl, rfl⟩
    · cases (hsingle u hu hnone).1

end Declaration

/-- The bases that a declaration names are what its definition is based on. -/
theorem Declared.mem_bases_iff {s : SymbolTable} {d : Declaration} {t : TypeDef}
    (hd : Declared s d t) (hfaults : Declaration.baseFaults s d.decl none d.decl.bases = [])
    (name : String) : name ∈ d.symbol.bases ↔
      name ∈ (t.base.toList ++ t.capabilities).map (·.name) := by
  obtain ⟨hknown, hsingle⟩ := Declaration.bases_of_no_faults hfaults
  rw [hd.base, hd.capabilities, List.mem_map]
  constructor
  · intro hname
    obtain ⟨b, hb, rfl⟩ := List.mem_map.1 hname
    obtain ⟨u, hu⟩ := hknown b hb
    have hmem : u ∈ d.bases s := List.mem_filterMap.2 ⟨b, hb, hu⟩
    refine ⟨u.ref, ?_, (SymbolTable.mem_of_find? hu).2⟩
    -- a base is a capability, or else it is the only class among them
    cases hcapability : u.isCapability with
    | true =>
      apply List.mem_append_right
      exact List.mem_map_of_mem (List.mem_filter.2 ⟨hmem, hcapability⟩)
    | false =>
      refine List.mem_append_left _ (Option.mem_toList.2 ?_)
      exact Option.map_eq_some_iff.2 ⟨u, (hsingle u hmem hcapability).2, rfl⟩
  · rintro ⟨r, hr, rfl⟩
    have hbase : ∃ u ∈ d.bases s, u.ref = r := by
      rcases List.mem_append.1 hr with hr | hr
      · obtain ⟨u, hu, rfl⟩ := Option.map_eq_some_iff.1 (Option.mem_toList.1 hr)
        exact ⟨u, List.mem_of_find?_eq_some hu, rfl⟩
      · obtain ⟨u, hu, rfl⟩ := List.mem_map.1 hr
        exact ⟨u, (List.mem_filter.1 hu).1, rfl⟩
    obtain ⟨u, hu, rfl⟩ := hbase
    obtain ⟨b, hb, hfind⟩ := List.mem_filterMap.1 hu
    exact List.mem_map.2 ⟨b, hb, (SymbolTable.mem_of_find? hfind).2.symm⟩

/-! ## The table of a module -/

namespace MadeOf

section

variable {s : SymbolTable} {h : Hierarchy} {ds : List Declaration} {options : CompileOptions}
  (hmade : MadeOf h.libraries h.main options s ds)

include hmade

/-- A class of the module that is run was declared. -/
theorem declared_main {x : ClassId} (hx : h.HasClass x) (hmain : x.module = h.mainIndex) :
    ∃ d ∈ ds, d.symbol ∈ s.types ∧ Declared s d (h.typeDef x) := by
  have hmem := Hierarchy.typeDef_mem hx
  rw [hmain, Hierarchy.module_mainIndex] at hmem
  obtain ⟨d, hd, hdeclared⟩ := Lowering.exists_of_forall₂_right hmade.declared hmem
  rw [hmade.types]
  exact ⟨d, hd, List.mem_append_right _ (List.mem_map_of_mem hd), hdeclared⟩

/-- Every class has a symbol, of a library or of a declaration. -/
theorem symbol_of_class {x : ClassId} (hx : h.HasClass x) :
    (∃ l ∈ h.libraries, .ofDef (h.typeDef x) l.name ∈ s.types) ∨
      ∃ d ∈ ds, d.symbol ∈ s.types ∧ Declared s d (h.typeDef x) := by
  by_cases hlibrary : x.module < h.mainIndex
  · have hmem := Hierarchy.typeDef_mem hx
    rw [Hierarchy.module_of_lt hlibrary] at hmem
    have hl : h.libraries.get ⟨x.module, hlibrary⟩ ∈ h.libraries := List.get_mem _ _
    refine .inl ⟨_, hl, ?_⟩
    rw [hmade.types]
    exact List.mem_append_left _ (Declaration.mem_libraryTypes.2 ⟨_, hl, _, hmem, rfl⟩)
  · exact .inr (hmade.declared_main hx (Nat.le_antisymm hx.module (Nat.le_of_not_lt hlibrary)))

theorem exists_symbol {x : ClassId} (hx : h.HasClass x) :
    ∃ t ∈ s.types, t.name = h.nameOf x ∧ t.kind = (h.typeDef x).kind := by
  rcases hmade.symbol_of_class hx with ⟨l, -, ht⟩ | ⟨d, -, ht, hd⟩
  · exact ⟨_, ht, rfl, rfl⟩
  · exact ⟨_, ht, hd.shows.name, hd.shows.kind⟩

/-- A reference to a class leads to the symbol of the class. -/
theorem find?_of_class {y : ClassId} (hy : h.HasClass y) {name : String}
    (hname : h.nameOf y = name) :
    ∃ t, s.find? name = some t ∧ t.name = name ∧ t.kind = (h.typeDef y).kind := by
  obtain ⟨t, ht, htname, hkind⟩ := hmade.exists_symbol hy
  rw [← hname, ← htname]
  exact ⟨t, SymbolTable.find?_of_mem ht, rfl, hkind⟩

/-- Every symbol stands for a class. -/
theorem stands (hnames : (h.libraries.map (·.name)).Nodup)
    (hnodup : ((Declaration.libraryTypes h.libraries).map (·.name)).Nodup) :
    ∀ t ∈ s.types, ∃ x, h.Stands t x := by
  refine Hierarchy.stands_of_declared hnames ?_ hmade.declared
  rw [Declaration.types_libraryTable hnodup]
  exact hmade.types

variable (hlayered : h.Layered) {x : ClassId} (hx : h.HasClass x)

include hlayered hx

theorem map_base?_eq : (s.base? (h.nameOf x)).map (·.name) = (h.base? x).map h.nameOf := by
  rw [hlayered.map_base? hx]
  rcases hmade.symbol_of_class hx with ⟨l, -, ht⟩ | ⟨d, -, ht, hdeclared⟩
  · have hbases : s.basesOf (h.nameOf x) = _ := SymbolTable.basesOf_eq ht
    rw [SymbolTable.base?, hbases]
    show (List.find? _ (List.filterMap s.find? (((h.typeDef x).base.toList ++
      (h.typeDef x).capabilities).map (·.name)))).map _ = _
    -- capabilities are passed over
    have hcapabilities : (((h.typeDef x).capabilities.map (·.name)).filterMap s.find?).find?
        (!·.isCapability) = none := by
      rw [List.find?_eq_none]
      intro t ht
      obtain ⟨name, hname, hfind⟩ := List.mem_filterMap.1 ht
      obtain ⟨r, hr, rfl⟩ := List.mem_map.1 hname
      obtain ⟨y, -, hclass, hyname, hkind⟩ := hlayered.capability hx hr
      obtain ⟨u, hu, -, hukind⟩ := hmade.find?_of_class hclass hyname
      rw [hfind] at hu
      cases hu
      rw [TypeSymbol.isCapability, hukind, hkind]
      decide
    cases hbase : (h.typeDef x).base with
    | none =>
      rw [Option.toList_none, List.nil_append, hcapabilities]
      rfl
    | some r =>
      obtain ⟨y, -, hclass, hyname, hkind⟩ := hlayered.base hx hbase
      obtain ⟨u, hu, huname, hukind⟩ := hmade.find?_of_class hclass hyname
      have hfirst : (!u.isCapability) = true := by
        rw [TypeSymbol.isCapability, hukind, hkind]
        decide
      rw [Option.toList_some, List.singleton_append, List.map_cons,
        List.filterMap_cons_some hu, List.find?_cons, hfirst]
      exact congrArg some huname
  · have hbases : s.basesOf d.symbol.name = d.symbol.bases := SymbolTable.basesOf_eq ht
    have hname : h.nameOf x = d.symbol.name := hdeclared.shows.name.symm
    have hfound : d.symbol.bases.filterMap s.find? = d.bases s := List.filterMap_map
    rw [hname, SymbolTable.base?, hbases, hfound, hdeclared.base, Option.map_map]
    rfl

theorem mem_basesOf_iff (name : String) :
    name ∈ s.basesOf (h.nameOf x) ↔ ∃ y ∈ h.supers x, h.nameOf y = name := by
  rw [hlayered.mem_supers_iff hx]
  rcases hmade.symbol_of_class hx with ⟨l, -, ht⟩ | ⟨d, hd, ht, hdeclared⟩
  · have hbases : s.basesOf (h.nameOf x) = _ := SymbolTable.basesOf_eq ht
    rw [hbases]
    rfl
  · have hbases : s.basesOf d.symbol.name = d.symbol.bases := SymbolTable.basesOf_eq ht
    have hname : h.nameOf x = d.symbol.name := hdeclared.shows.name.symm
    rw [hname, hbases]
    exact hdeclared.mem_bases_iff (Declaration.baseFaults_of_no_faults (hmade.faults d hd)) name

omit hlayered hx in
/-- Symbols and classes mirror each other once a module is loaded with libraries that stack. -/
theorem mirrors (hstack : Stack h.libraries) : Mirrors s h := by
  have hlayered : h.Layered := Hierarchy.layered_of_stack hstack hmade.joins
  refine ⟨hmade.stands hstack.names_nodup hstack.types_nodup, ?_, ?_, ?_, ?_, ?_⟩
  · intro x hx
    obtain ⟨t, ht, hname, -⟩ := hmade.exists_symbol hx
    exact ⟨t, ht, hname⟩
  · exact fun x y hx hy hname => hlayered.unique hx hy hname
  · exact fun x hx y hy => hlayered.hasClass_of_mem_supers hx hy
  · exact fun x hx => hmade.map_base?_eq hlayered hx
  · exact fun x hx name => hmade.mem_basesOf_iff hlayered hx name

end

end MadeOf

/-! ## Compilations without errors -/

theorem Compilation.mirrors_of_ok {references : References} {name : String}
    {units : List SourceUnit} {options : CompileOptions} {h : Hierarchy} (hstack : Stack references)
    (hok : (Compilation.ofUnits name units references options).hasErrors = false)
    (hload : Hierarchy.load (Compilation.ofUnits name units references options).image references =
      .ok h) :
    Mirrors (Compilation.ofUnits name units references options).model.symbols h := by
  obtain ⟨ds, hmade, -⟩ := Compilation.madeOf_of_ok hok hstack.types_nodup
  obtain rfl := Hierarchy.load_ok hload
  exact MadeOf.mirrors (h := ⟨references, _⟩) hmade hstack

/-- What a type of a table and its class are based on, and what is found in them, is the same. -/
structure SameHierarchy (s : SymbolTable) (h : Hierarchy) (t : TypeSymbol) (x : ClassId) :
    Prop where
  /-- The same types in the same order. -/
  ancestors : (s.ancestors t.name).map (·.ref) = (h.ancestors x).map h.refOf
  /-- The same method of the same type, or none. -/
  method? : ∀ name, (s.method? t.name name).map (fun found => (found.1.ref, found.2)) =
    (h.findMethod? x name).map fun found => (h.refOf found.1, .ofDef found.2)
  /-- The same capabilities other than the type itself. -/
  implements : ∀ c ∈ s.types, c.isCapability → c.name ≠ t.name →
    ∀ y, h.resolve? h.mainIndex c.ref = some y → s.implements t.name c.name = h.implements x y

theorem Mirrors.sameHierarchy {s : SymbolTable} {h : Hierarchy} (hm : Mirrors s h)
    {t : TypeSymbol} {x : ClassId} (hx : h.Stands t x) : SameHierarchy s h t x := by
  have hname : t.name = h.nameOf x := hx.shows.name
  refine ⟨?_, ?_, ?_⟩
  · rw [hname]
    exact Lowering.map_eq_of_forall₂ (fun _ _ h => h.ref.symm) (hm.ancestors hx.hasClass)
  · rw [hname]
    exact hm.method? hx.hasClass
  · intro c hc hcapability hne y hy
    obtain ⟨z, hz⟩ := hm.stands c hc
    have hyz : z = y := Option.some.inj (hz.resolve.symm.trans hy)
    exact hm.implements hx (hyz ▸ hz) hc hcapability hne.symm

/-- The types that a compilation without errors knows and the classes that its module is loaded with
correspond one to one, and have the same hierarchy. -/
theorem hierarchies_agree {sources : List LibrarySource} {patience left : Patience}
    {references : References} {name : String} {units : List SourceUnit} {options : CompileOptions}
    (hresolve : References.resolve sources patience = .ok (references, left))
    (hwritable : References.Writable sources references)
    (hok : (Compilation.ofUnits name units references options).hasErrors = false) :
    ∃ h, Hierarchy.load (Compilation.ofUnits name units references options).image references =
        .ok h ∧
      (∀ x, h.HasClass x →
        ∃! t, t ∈ (Compilation.ofUnits name units references options).model.symbols.types ∧
          h.resolve? h.mainIndex t.ref = some x) ∧
      ∀ t ∈ (Compilation.ofUnits name units references options).model.symbols.types,
        ∃ x, h.resolve? h.mainIndex t.ref = some x ∧ h.HasClass x ∧
          SameHierarchy (Compilation.ofUnits name units references options).model.symbols h t
            x := by
  obtain ⟨h, hload⟩ : ∃ h, Hierarchy.load
      (Compilation.ofUnits name units references options).image references = .ok h :=
    ⟨_, Hierarchy.load_image (Compilation.ofUnits name units references options)⟩
  have hm := Compilation.mirrors_of_ok (References.stack_of_resolve hresolve hwritable) hok hload
  refine ⟨h, hload, ?_, ?_⟩
  · intro x hx
    obtain ⟨t, hfind, hstands⟩ := hm.find?_nameOf hx
    refine ⟨t, ⟨(SymbolTable.mem_of_find? hfind).1, hstands.resolve⟩, ?_⟩
    rintro u ⟨hu, hresolves⟩
    obtain ⟨y, hy⟩ := hm.stands u hu
    have hyx : y = x := Option.some.inj (hy.resolve.symm.trans hresolves)
    have hname : u.name = h.nameOf x := hyx ▸ hy.shows.name
    have hfound := SymbolTable.find?_of_mem hu
    rw [hname, hfind] at hfound
    exact (Option.some.inj hfound).symm
  · intro t ht
    obtain ⟨x, hx⟩ := hm.stands t ht
    exact ⟨x, hx.resolve, hx.hasClass, hm.sameHierarchy hx⟩

/-- The capability of a library's type is one of the type that is based on it. -/
theorem hierarchies_agree_leaf :
    References.resolve leafSources none = .ok (leafReferences, none) ∧
      References.Writable leafSources leafReferences ∧
      (Compilation.ofUnits "M" leafUnits leafReferences .library).hasErrors = false ∧
      ∃ h, Hierarchy.load (Compilation.ofUnits "M" leafUnits leafReferences .library).image
          leafReferences = .ok h ∧
        (∀ x, h.HasClass x →
          ∃! t, t ∈ (Compilation.ofUnits "M" leafUnits leafReferences
              .library).model.symbols.types ∧
            h.resolve? h.mainIndex t.ref = some x) ∧
        ∀ t ∈ (Compilation.ofUnits "M" leafUnits leafReferences .library).model.symbols.types,
          ∃ x, h.resolve? h.mainIndex t.ref = some x ∧ h.HasClass x ∧
            SameHierarchy (Compilation.ofUnits "M" leafUnits leafReferences
              .library).model.symbols h t x :=
  ⟨resolve_leaf, writable_leaf, leaf_evaluates.2.2,
    hierarchies_agree resolve_leaf writable_leaf leaf_evaluates.2.2⟩

end GenLang
