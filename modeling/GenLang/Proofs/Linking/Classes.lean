import Mathlib.Data.List.GetD
import GenLang.Proofs.Linking.Compiled
import GenLang.Hierarchy

/-!
# Symbols and classes

Where no two libraries share a name, the reference of every symbol of a compilation is resolved to a
class when its module is loaded, and the definition of that class is as the symbol tells.
-/

namespace GenLang

namespace Hierarchy

open Lowering

variable {h : Hierarchy}

/-- A class of a library or of the module that is run. -/
structure HasClass (h : Hierarchy) (x : ClassId) : Prop where
  module : x.module ≤ h.mainIndex
  index : x.index < (h.module x.module).types.length

/-- The reference by which other modules mean a class of a library, or a module its own. -/
def refOf (h : Hierarchy) (x : ClassId) : TypeRef :=
  ⟨if x.module < h.mainIndex then some (h.module x.module).name else none, (h.typeDef x).name⟩

theorem typeDef_eq (x : ClassId) (hindex : x.index < (h.module x.module).types.length) :
    h.typeDef x = (h.module x.module).types[x.index] :=
  (List.getElem_eq_getD default).symm

theorem typeDef_mem {x : ClassId} (hx : h.HasClass x) :
    h.typeDef x ∈ (h.module x.module).types := by
  rw [typeDef_eq x hx.index]
  exact List.getElem_mem _

/-- What a class is defined as is a type of its module, or has no code. -/
theorem typeDef_mem_or (h : Hierarchy) (x : ClassId) :
    h.typeDef x ∈ (h.module x.module).types ∨ h.typeDef x = default := by
  by_cases hindex : x.index < (h.module x.module).types.length
  · rw [typeDef, List.getD_eq_getElem _ _ hindex]
    exact .inl (List.getElem_mem hindex)
  · rw [typeDef, List.getD_eq_default _ _ (by omega)]
    exact .inr rfl

theorem module_of_lt {i : Nat} (hi : i < h.libraries.length) : h.module i = h.libraries[i] :=
  (List.getElem_eq_getD h.main).symm

theorem module_mainIndex : h.module h.mainIndex = h.main := by
  rw [module, mainIndex, List.getD_eq_default _ _ (Nat.le_refl _)]

theorem load_ok {image : Image} {libraries : List Image} (hload : load image libraries = .ok h) :
    h = ⟨libraries, image⟩ := by
  unfold load at hload
  split at hload <;> cases hload
  rfl

/-! ## Resolving references -/

/-- The first type of a name in a module. -/
theorem findIn?_of_find? {m : Nat} {name : String} {t : TypeDef} (hm : m ≤ h.mainIndex)
    (hfind : (h.module m).types.find? (·.name == name) = some t) :
    ∃ x, h.findIn? m name = some x ∧ x.module = m ∧ h.HasClass x ∧ h.typeDef x = t := by
  obtain ⟨hname, i, hi, hget, hbefore⟩ := List.find?_eq_some_iff_getElem.1 hfind
  have hidx : (h.module m).types.findIdx? (·.name == name) = some i :=
    List.findIdx?_eq_some_iff_getElem.2 ⟨hi, by rwa [hget], fun j hj => by simpa using hbefore j hj⟩
  have hclass : h.HasClass ⟨m, i⟩ := ⟨hm, hi⟩
  refine ⟨⟨m, i⟩, ?_, rfl, hclass, ?_⟩
  · rw [findIn?, hidx]
    rfl
  · rw [typeDef_eq _ hclass.index, ← hget]

/-- What is found as a library has its name. -/
theorem of_libraryIndex? {library : String} {i : Nat} (hi : h.libraryIndex? library = some i) :
    i < h.mainIndex ∧ (h.module i).name = library := by
  have hmem := List.mem_of_find?_eq_some hi
  rw [List.mem_reverse, List.mem_range] at hmem
  exact ⟨hmem, by simpa using List.find?_some hi⟩

theorem exists_libraryIndex? {l : Image} (hl : l ∈ h.libraries) :
    ∃ i, h.libraryIndex? l.name = some i := by
  obtain ⟨j, hj, rfl⟩ := List.mem_iff_getElem.1 hl
  apply Option.isSome_iff_exists.1
  rw [libraryIndex?, List.find?_isSome]
  refine ⟨j, by simpa using hj, ?_⟩
  rw [module_of_lt hj, beq_self_eq_true]

theorem libraryIndex?_of_mem (hnames : (h.libraries.map (·.name)).Nodup) {l : Image}
    (hl : l ∈ h.libraries) :
    ∃ j, h.libraryIndex? l.name = some j ∧ j < h.mainIndex ∧ h.module j = l := by
  obtain ⟨j, hidx⟩ := exists_libraryIndex? hl
  obtain ⟨hj, hname⟩ := of_libraryIndex? hidx
  refine ⟨j, hidx, hj, ?_⟩
  rw [module_of_lt hj] at hname ⊢
  exact List.inj_on_of_nodup_map hnames (List.getElem_mem hj) hl hname

/-- A reference to a type of a library is resolved from every module. -/
theorem resolve?_library (hnames : (h.libraries.map (·.name)).Nodup) {l : Image}
    (hl : l ∈ h.libraries) {name : String} {t : TypeDef}
    (hfind : l.types.find? (·.name == name) = some t) (m : Nat) :
    ∃ x, h.resolve? m ⟨some l.name, name⟩ = some x ∧ h.HasClass x ∧ x.module < h.mainIndex ∧
      h.module x.module = l ∧ h.typeDef x = t := by
  obtain ⟨j, hidx, hj, rfl⟩ := libraryIndex?_of_mem hnames hl
  obtain ⟨x, hx, rfl, hclass, ht⟩ := findIn?_of_find? (Nat.le_of_lt hj) hfind
  refine ⟨x, ?_, hclass, hj, rfl, ht⟩
  show (h.libraryIndex? _).bind _ = _
  rw [hidx]
  exact hx

/-- A class that is found in a library is declared there under its name. -/
theorem typeDef_of_findLibraryClass? {library name : String} {x : ClassId}
    (hx : h.findLibraryClass? library name = some x) :
    ∃ l ∈ h.libraries, l.name = library ∧ h.typeDef x ∈ l.types ∧
      (h.typeDef x).name = name := by
  obtain ⟨j, hj, hfind⟩ := Option.bind_eq_some_iff.1 hx
  obtain ⟨hlt, hlibrary⟩ := of_libraryIndex? hj
  obtain ⟨i, hi, rfl⟩ := Option.map_eq_some_iff.1 hfind
  obtain ⟨hindex, hname, -⟩ := List.findIdx?_eq_some_iff_getElem.1 hi
  have hdef : h.typeDef ⟨j, i⟩ = (h.module j).types[i] := typeDef_eq _ hindex
  refine ⟨h.module j, ?_, hlibrary, ?_, ?_⟩
  · rw [module_of_lt hlt]
    exact List.getElem_mem _
  · rw [hdef]
    exact List.getElem_mem _
  · rw [hdef]
    exact beq_iff_eq.1 hname

/-! ## Classes of symbols -/

/-- A class is what a symbol of the module that is run stands for. -/
structure Stands (h : Hierarchy) (t : TypeSymbol) (x : ClassId) : Prop where
  resolve : h.resolve? h.mainIndex t.ref = some x
  hasClass : h.HasClass x
  ref : h.refOf x = t.ref
  shows : Shows t (h.typeDef x)

theorem exists_stands_library (hnames : (h.libraries.map (·.name)).Nodup) {t : TypeSymbol}
    (ht : t ∈ (Declaration.libraryTable h.libraries).types) : ∃ x, h.Stands t x := by
  have hfind := SymbolTable.find?_of_mem ht
  rw [Declaration.find?_libraryTable, Declaration.libraryTypes, List.find?_flatMap] at hfind
  obtain ⟨l, hl, hfind⟩ := List.exists_of_findSome?_eq_some hfind
  rw [List.find?_map, Option.map_eq_some_iff] at hfind
  obtain ⟨d, hd, rfl⟩ := hfind
  have hfind : l.types.find? (·.name == d.name) = some d := hd
  obtain ⟨x, hresolve, hclass, hmodule, hl', hdef⟩ :=
    resolve?_library hnames hl hfind h.mainIndex
  refine ⟨x, hresolve, hclass, ?_, ?_⟩
  · rw [refOf, if_pos hmodule, hl', hdef]
    rfl
  · rw [hdef]
    exact shows_ofDef d l.name

theorem exists_stands_main {s : SymbolTable} {ds : List Declaration}
    (hds : List.Forall₂ (Declared s) ds h.main.types)
    (hnodup : ((ds.map Declaration.symbol).map (·.name)).Nodup) {d : Declaration} (hd : d ∈ ds) :
    ∃ x, h.Stands d.symbol x := by
  obtain ⟨t, ht, hlowered⟩ := exists_of_forall₂_left hds hd
  have hfind := find?_of_nodup (by rwa [← map_name_of_declared hds]) ht
  rw [← module_mainIndex] at hfind
  obtain ⟨x, hx, hmodule, hclass, hdef⟩ := findIn?_of_find? (Nat.le_refl _) hfind
  have hname : d.symbol.name = t.name := hlowered.shows.name
  refine ⟨x, ?_, hclass, ?_, ?_⟩
  · rw [TypeSymbol.ref, hname]
    exact hx
  · rw [refOf, if_neg (by omega), hdef, TypeSymbol.ref, hname]
    rfl
  · rw [hdef]
    exact hlowered.shows

/-- Every symbol of a table stands for a class, if it is one of a library or of a declaration that a
type of the module was made from. -/
theorem stands_of_declared (hnames : (h.libraries.map (·.name)).Nodup) {s : SymbolTable}
    {ds : List Declaration} (htypes : s.types =
      (Declaration.libraryTable h.libraries).types ++ ds.map Declaration.symbol)
    (hds : List.Forall₂ (Declared s) ds h.main.types) : ∀ t ∈ s.types, ∃ x, h.Stands t x := by
  have hnodup := s.nodup
  intro t ht
  rw [htypes] at ht hnodup
  rcases List.mem_append.1 ht with ht | ht
  · exact exists_stands_library hnames ht
  · obtain ⟨d, hd, rfl⟩ := List.mem_map.1 ht
    rw [List.map_append] at hnodup
    exact exists_stands_main hds (List.nodup_append.1 hnodup).2.1 hd

/-- Every symbol of a compilation without errors stands for a class of its module, loaded with the
libraries it was compiled against. -/
theorem exists_stands {name : String} {units : List SourceUnit} {references : List Image}
    {options : CompileOptions}
    (hok : (Compilation.ofUnits name units references options).hasErrors = false)
    (hload : load (Compilation.ofUnits name units references options).image references = .ok h)
    (hnames : (references.map (·.name)).Nodup) :
    ∀ t ∈ (Compilation.ofUnits name units references options).model.symbols.types,
      ∃ x, h.Stands t x := by
  obtain ⟨ds, htypes, hlowered, -⟩ := Compilation.declarations_of_ok hok
  obtain rfl := load_ok hload
  exact stands_of_declared hnames htypes (hlowered.imp fun _ _ h => h.toDeclared)

end Hierarchy

end GenLang
