import GenLang.Proofs.Linking.Hierarchies
import GenLang.Proofs.Linking.Standard
import GenLang.Generator

/-!
# Contracts

A class that has a capability does what the capability asks for: every method of the capability is
found in the class or in a class it is based on, as a method of objects that can be run and takes
the same parameters. For the module that is run this is what its compilation checked. A library was
checked when it was compiled itself, and nothing of its hierarchy changes with the modules that come
behind it.
-/

namespace GenLang

/-! ## A module and the libraries before it -/

namespace Hierarchy

variable {h : Hierarchy}

/-- A module of a hierarchy with the libraries before it. -/
def upTo (h : Hierarchy) (m : Nat) : Hierarchy :=
  ⟨h.libraries.take m, h.module m⟩

section

variable {m : Nat} (hm : m ≤ h.mainIndex)

include hm

theorem mainIndex_upTo : (h.upTo m).mainIndex = m := by
  rw [mainIndex, upTo, List.length_take]
  exact Nat.min_eq_left hm

theorem module_upTo {k : Nat} (hk : k ≤ m) : (h.upTo m).module k = h.module k := by
  by_cases hlast : k < m
  · have hlength : k < (h.libraries.take m).length := by
      rw [List.length_take]
      exact Nat.lt_min.2 ⟨hlast, Nat.lt_of_lt_of_le hlast hm⟩
    rw [module_of_lt (h := h.upTo m) hlength, module_of_lt (Nat.lt_of_lt_of_le hlast hm)]
    exact List.getElem_take
  · obtain rfl : k = m := by omega
    have hmain := module_mainIndex (h := h.upTo k)
    rwa [mainIndex_upTo hm] at hmain

theorem typeDef_upTo {x : ClassId} (hx : x.module ≤ m) : (h.upTo m).typeDef x = h.typeDef x := by
  rw [typeDef, module_upTo hm hx, ← typeDef]

theorem hasClass_upTo {x : ClassId} : (h.upTo m).HasClass x ↔ h.HasClass x ∧ x.module ≤ m := by
  constructor
  · intro hx
    have hle := hx.module
    rw [mainIndex_upTo hm] at hle
    have hindex := hx.index
    rw [module_upTo hm hle] at hindex
    exact ⟨⟨Nat.le_trans hle hm, hindex⟩, hle⟩
  · rintro ⟨hx, hle⟩
    refine ⟨by rwa [mainIndex_upTo hm], ?_⟩
    rw [module_upTo hm hle]
    exact hx.index

theorem joins_upTo (hlayered : h.Layered) {k : Nat} (hk : k ≤ m) :
    Joins ((h.upTo m).libraries.take k) ((h.upTo m).module k) := by
  have htake : (h.upTo m).libraries.take k = h.libraries.take k := by
    rw [upTo, List.take_take, Nat.min_eq_left hk]
  rw [htake, module_upTo hm hk]
  exact hlayered.joins k (Nat.le_trans hk hm)

theorem Layered.upTo (hlayered : h.Layered) : (h.upTo m).Layered := by
  refine ⟨hlayered.names.sublist ((List.take_sublist _ _).map _), fun k hk => ?_⟩
  rw [mainIndex_upTo hm] at hk
  exact joins_upTo hm hlayered hk

theorem classCount_upTo_le : (h.upTo m).classCount ≤ h.classCount := by
  obtain ⟨k, hk⟩ := Nat.exists_eq_add_of_le (Nat.succ_le_succ hm)
  have hclasses : (h.upTo m).allClasses = (List.range (m + 1)).flatMap fun n =>
      (List.range (h.module n).types.length).map (⟨n, ·⟩) := by
    rw [allClasses, mainIndex_upTo hm]
    refine List.flatMap_congr fun n hn => ?_
    rw [module_upTo hm (Nat.le_of_lt_succ (List.mem_range.1 hn))]
  have hrange : List.range (h.mainIndex + 1) =
      List.range (m + 1) ++ (List.range k).map (m + 1 + ·) := by
    rw [← List.range_add]
    exact congrArg List.range hk
  rw [← length_allClasses, ← length_allClasses, hclasses, allClasses, hrange, List.flatMap_append,
    List.length_append]
  exact Nat.le_add_right _ _

variable (hlayered : h.Layered)

include hlayered

/-- A reference that is declared is resolved to one and the same class. -/
theorem resolve?_upTo {k : Nat} (hk : k ≤ m) {r : TypeRef} {u : TypeDef}
    (hu : Declares (h.libraries.take k) (h.module k) r u) :
    (h.upTo m).resolve? k r = h.resolve? k r := by
  obtain ⟨y, hy, hclass, hdef⟩ := hlayered.resolve (Nat.le_trans hk hm) hu
  have hu' : Declares ((h.upTo m).libraries.take k) ((h.upTo m).module k) r u := by
    rwa [upTo, List.take_take, Nat.min_eq_left hk, ← upTo, module_upTo hm hk]
  obtain ⟨z, hz, hclass', hdef'⟩ := (hlayered.upTo hm).resolve (by rwa [mainIndex_upTo hm]) hu'
  obtain ⟨hz', hle⟩ := (hasClass_upTo hm).1 hclass'
  rw [typeDef_upTo hm hle] at hdef'
  have hname : h.nameOf z = h.nameOf y := congrArg TypeDef.name (hdef'.trans hdef.symm)
  rw [hy, hz, hlayered.unique hz' hclass hname]

variable {x : ClassId} (hx : h.HasClass x) (hle : x.module ≤ m)

include hx hle

theorem base?_upTo : (h.upTo m).base? x = h.base? x := by
  rw [base?, base?, typeDef_upTo hm hle]
  cases hbase : (h.typeDef x).base with
  | none => rfl
  | some r =>
    obtain ⟨u, hu, -⟩ := (hlayered.joins _ hx.module).base _ (typeDef_mem hx) r hbase
    exact resolve?_upTo hm hlayered hle hu

theorem supers_upTo : (h.upTo m).supers x = h.supers x := by
  rw [supers, supers, typeDef_upTo hm hle]
  refine List.filterMap_congr fun r hr => ?_
  have hjoins := hlayered.joins _ hx.module
  rcases List.mem_append.1 hr with hr | hr
  · obtain ⟨u, hu, -⟩ := hjoins.base _ (typeDef_mem hx) r (Option.mem_toList.1 hr)
    exact resolve?_upTo hm hlayered hle hu
  · obtain ⟨u, hu, -⟩ := hjoins.capabilities _ (typeDef_mem hx) r hr
    exact resolve?_upTo hm hlayered hle hu

theorem ancestors_upTo : (h.upTo m).ancestors x = h.ancestors x := by
  have hclosed : ∀ y, (h.upTo m).HasClass y → ∀ z ∈ (h.upTo m).base? y, (h.upTo m).HasClass z :=
    fun y hy z hz => (hlayered.upTo hm).hasClass_of_mem_supers hy (mem_supers_of_base? hz)
  have hbase : ∀ y, (h.upTo m).HasClass y → (h.upTo m).base? y = h.base? y := fun y hy =>
    base?_upTo hm hlayered ((hasClass_upTo hm).1 hy).1 ((hasClass_upTo hm).1 hy).2
  have hstart : ∀ y ∈ some x, (h.upTo m).HasClass y := fun y hy =>
    Option.some.inj hy ▸ (hasClass_upTo hm).2 ⟨hx, hle⟩
  -- neither bound cuts the chain off
  have hcount := classCount_upTo_le hm
  have hlength := length_allClasses (h.upTo m)
  rw [ancestors, ancestors, ← Graph.chain_congr hclosed hbase (h.classCount + 1) [] hstart]
  exact Graph.chain_of_le (fun y hy z hz => mem_allClasses.2 (hclosed y (mem_allClasses.1 hy) z hz))
    (fun y hy => mem_allClasses.2 (hstart y hy)) (by omega) (by omega)

/-- What is found in a class is the same with and without the modules behind it. -/
theorem findMethod?_upTo (name : String) :
    (h.upTo m).findMethod? x name = h.findMethod? x name := by
  have hclass := (hasClass_upTo hm).2 ⟨hx, hle⟩
  rw [findMethod?, findMethod?, ← ancestors_upTo hm hlayered hx hle, ← List.head?_filterMap,
    ← List.head?_filterMap]
  refine congrArg List.head? (List.filterMap_congr fun y hy => ?_)
  have hy := (hlayered.upTo hm).hasClass_of_mem_ancestors hclass hy
  rw [typeDef_upTo hm ((hasClass_upTo hm).1 hy).2]

theorem implements_upTo (y : ClassId) : (h.upTo m).implements x y = h.implements x y := by
  have hclass := (hasClass_upTo hm).2 ⟨hx, hle⟩
  have hclosed : ∀ z, (h.upTo m).HasClass z → ∀ w ∈ (h.upTo m).supers z, (h.upTo m).HasClass w :=
    fun z hz w hw => (hlayered.upTo hm).hasClass_of_mem_supers hz hw
  have hsupers : ∀ z, (h.upTo m).HasClass z → (h.upTo m).supers z = h.supers z := fun z hz =>
    supers_upTo hm hlayered ((hasClass_upTo hm).1 hz).1 ((hasClass_upTo hm).1 hz).2
  rw [Bool.eq_iff_iff, implements_iff hclosed hclass,
    implements_iff (fun z hz w hw => hlayered.hasClass_of_mem_supers hz hw) hx]
  exact Graph.reaches_congr hclosed hsupers hclass

/-- All that a class is or has lies in its module and before. -/
theorem hasClass_upTo_of_implements {y : ClassId} (hy : h.implements x y) :
    (h.upTo m).HasClass y := by
  have hclass := (hasClass_upTo hm).2 ⟨hx, hle⟩
  have hclosed : ∀ z, (h.upTo m).HasClass z → ∀ w ∈ (h.upTo m).supers z, (h.upTo m).HasClass w :=
    fun z hz w hw => (hlayered.upTo hm).hasClass_of_mem_supers hz hw
  rw [← implements_upTo hm hlayered hx hle, implements_iff hclosed hclass] at hy
  exact (Graph.reaches_of_reaches hclosed (fun _ _ => rfl) hclass hy).2

end

/-- A class does what a method of a capability asks for: a method of objects of that name is found
that can be run and has as many parameters. -/
def Fulfils (h : Hierarchy) (x : ClassId) (wanted : MethodDef) : Prop :=
  ∃ owner m, h.findMethod? x wanted.name = some (owner, m) ∧ m.isStatic = false ∧
    (m.body.isSome = true ∨ m.isNative = true) ∧ m.params.length = wanted.params.length

/-- A class of which there may be objects keeps the contract of a capability. -/
def Honours (h : Hierarchy) (x y : ClassId) : Prop :=
  (h.typeDef x).kind = .class_ → (h.typeDef x).isAbstract = false →
    (h.typeDef y).kind = .capability → h.implements x y = true →
      ∀ wanted ∈ (h.typeDef y).methods, wanted.isStatic = false → h.Fulfils x wanted

end Hierarchy

/-! ## What a compilation checks -/

namespace SymbolTable

variable {s : SymbolTable}

theorem mem_capabilitiesOf {name : String} {u : TypeSymbol} (hu : u ∈ s.types)
    (h : s.implements name u.name = true) : u ∈ s.capabilitiesOf name := by
  obtain ⟨v, hv, hname⟩ := List.any_eq_true.1 h
  have hfound := find?_of_mem (mem_capabilitiesOf_iff.1 hv).1
  rw [beq_iff_eq.1 hname, find?_of_mem hu] at hfound
  exact Option.some.inj hfound ▸ hv

end SymbolTable

namespace Declaration

variable {s : SymbolTable} {decl : TypeDecl} {options : CompileOptions}

/-- Where nothing is wrong with a type, it has what its capabilities ask for. -/
theorem implemented_of_no_faults (h : faults s options decl = []) (hkind : decl.kind = .type)
    (habstract : decl.isAbstract = false) {u : TypeSymbol}
    (hu : u ∈ s.capabilitiesOf decl.name.name) {wanted : MethodSymbol}
    (hwanted : wanted ∈ u.methods) (hstatic : wanted.isStatic = false) :
    ∃ owner m, s.method? decl.name.name wanted.name = some (owner, m) ∧ m.isStatic = false ∧
      (m.hasBody = true ∨ m.isNative = true) ∧ m.params.length = wanted.params.length := by
  have hcapabilities := capabilityFaults_of_no_faults h hkind habstract
  -- no fault for this method: it is static, or it is implemented
  have himplemented : isImplemented s decl.name.name wanted = true := by
    have hnone := List.flatMap_eq_nil_iff.1 hcapabilities u hu
    rw [List.map_eq_nil_iff, List.filter_eq_nil_iff] at hnone
    have hwanted := hnone wanted hwanted
    rw [hstatic] at hwanted
    simpa using hwanted
  rw [isImplemented] at himplemented
  cases hfound : s.method? decl.name.name wanted.name with
  | none =>
    rw [hfound] at himplemented
    cases himplemented
  | some found =>
    rw [hfound] at himplemented
    obtain ⟨owner, m⟩ := found
    simp only [Bool.and_eq_true, Bool.not_eq_true', Bool.or_eq_true, beq_iff_eq] at himplemented
    exact ⟨owner, m, rfl, himplemented.1.1, himplemented.1.2, himplemented.2⟩

end Declaration

/-- Classes of the module that is run keep the contracts of their capabilities. -/
theorem MadeOf.honours {h : Hierarchy} {options : CompileOptions} {s : SymbolTable}
    {ds : List Declaration} (hmade : MadeOf h.libraries h.main options s ds)
    (hstack : Stack h.libraries) {x : ClassId} (hx : h.HasClass x) (hmain : x.module = h.mainIndex)
    (y : ClassId) : h.Honours x y := by
  intro hkind habstract hcapability himplements wanted hwanted hstatic
  have hm := hmade.mirrors hstack
  obtain ⟨d, hd, -, hdeclared⟩ := hmade.declared_main hx hmain
  -- What the loaded classes say is taken to the table, where the checks have looked at it.
  have hy : h.HasClass y := by
    rw [Hierarchy.implements_iff hm.hasClass hx] at himplements
    exact (Graph.reaches_of_reaches hm.hasClass (fun _ _ => rfl) hx himplements).2
  obtain ⟨t, -, ht⟩ := hm.find?_nameOf hx
  obtain ⟨u, hfind, hu⟩ := hm.find?_nameOf hy
  have hmem := (SymbolTable.mem_of_find? hfind).1
  have hukind : u.isCapability = true := by
    rw [TypeSymbol.isCapability, hu.shows.kind, hcapability]
    rfl
  -- a class and a capability: two types, hence two names
  have hne : t.name ≠ u.name := by
    intro hname
    rw [ht.shows.name, hu.shows.name] at hname
    rw [hm.unique x y hx hy hname, hcapability] at hkind
    cases hkind
  have hname : d.decl.name.name = h.nameOf x := hdeclared.shows.name
  have hhas : u ∈ s.capabilitiesOf d.decl.name.name := by
    refine SymbolTable.mem_capabilitiesOf hmem ?_
    rw [← hm.implements ht hu hmem hukind hne, ht.shows.name] at himplements
    rwa [hname]
  have hasked : .ofDef wanted ∈ u.methods := by
    rw [hu.shows.methods]
    exact List.mem_map_of_mem hwanted
  obtain ⟨owner, m, hmethod, hinstance, hrun, hparams⟩ := Declaration.implemented_of_no_faults
    (hmade.faults d hd) (hdeclared.kind_eq hkind) (hdeclared.shows.isAbstract.trans habstract) hhas
    hasked hstatic
  -- what the table found is what the loaded classes find
  have hsame := hm.method? hx wanted.name
  rw [← hname, show s.method? d.decl.name.name wanted.name = _ from hmethod, Option.map_some,
    eq_comm, Option.map_eq_some_iff] at hsame
  obtain ⟨⟨z, found⟩, hfound, heq⟩ := hsame
  obtain rfl : MethodSymbol.ofDef found = m := congrArg Prod.snd heq
  refine ⟨z, found, hfound, hinstance, hrun, ?_⟩
  rwa [MethodSymbol.ofDef, MethodSymbol.ofDef, List.length_map, List.length_map] at hparams

/-- Classes of libraries keep the contracts of their capabilities as well. -/
theorem References.Built.honours {h : Hierarchy} (hbuilt : References.Built h.libraries)
    (hstack : Stack h.libraries) (hlayered : h.Layered) {x : ClassId} (hx : h.HasClass x)
    (hlibrary : x.module < h.mainIndex) (y : ClassId) : h.Honours x y := by
  intro hkind habstract hcapability himplements wanted hwanted hstatic
  have hle := Nat.le_of_lt hlibrary
  obtain ⟨s, ds, hmade⟩ := hbuilt x.module _ (List.getElem?_eq_getElem hlibrary)
  rw [← Hierarchy.module_of_lt hlibrary] at hmade
  have hxin := (Hierarchy.hasClass_upTo hle).2 ⟨hx, Nat.le_refl _⟩
  have hyin := Hierarchy.hasClass_upTo_of_implements hle hlayered hx (Nat.le_refl _) himplements
  have hyle := ((Hierarchy.hasClass_upTo hle).1 hyin).2
  have hhonours : (h.upTo x.module).Honours x y :=
    MadeOf.honours (h := h.upTo x.module) hmade (hstack.take _) hxin
      (Hierarchy.mainIndex_upTo hle).symm y
  unfold Hierarchy.Honours Hierarchy.Fulfils at hhonours
  rw [Hierarchy.typeDef_upTo hle (Nat.le_refl _), Hierarchy.typeDef_upTo hle hyle,
    Hierarchy.implements_upTo hle hlayered hx (Nat.le_refl _)] at hhonours
  obtain ⟨owner, m, hfound, hrest⟩ :=
    hhonours hkind habstract hcapability himplements wanted hwanted hstatic
  rw [Hierarchy.findMethod?_upTo hle hlayered hx (Nat.le_refl _)] at hfound
  exact ⟨owner, m, hfound, hrest⟩

theorem MadeOf.honours_all {h : Hierarchy} {options : CompileOptions} {s : SymbolTable}
    {ds : List Declaration} (hmade : MadeOf h.libraries h.main options s ds)
    (hstack : Stack h.libraries) (hbuilt : References.Built h.libraries) {x : ClassId}
    (hx : h.HasClass x) (y : ClassId) : h.Honours x y := by
  by_cases hlibrary : x.module < h.mainIndex
  · exact hbuilt.honours hstack (Hierarchy.layered_of_stack hstack hmade.joins) hx hlibrary y
  · exact hmade.honours hstack hx (Nat.le_antisymm hx.module (Nat.le_of_not_lt hlibrary)) y

/-! ## Generators -/

/-- What generators have to be asks for a method `Execute` of objects that takes one argument. -/
def References.AskForExecute (references : References) : Prop :=
  ∀ l ∈ references, l.name = "Generation" → ∀ t ∈ l.types, t.name = "Generator" →
    t.kind = .capability ∧
      ∃ m ∈ t.methods, m.name = "Execute" ∧ m.isStatic = false ∧ m.params.length = 1

/-- `Execute` can be called with one argument on objects of the generator's class. -/
def Generator.CanExecute (g : Generator) : Prop :=
  ∃ h c owner m, g.load = .ok (h, c) ∧ h.findMethod? c "Execute" = some (owner, m) ∧
    m.isStatic = false ∧ (m.body.isSome = true ∨ m.isNative = true) ∧ m.accepts 1 = true

theorem References.askForExecute_standard {more : List LibrarySource} {patience left : Patience}
    {references : References} (h : resolve (.standard :: more) patience = .ok (references, left))
    (hwritable : Writable (.standard :: more) references) : AskForExecute references := by
  have hplace : StandardLibrary.all[1]? =
      some ("Generation", StandardLibrary.textOfLines StandardLibrary.generationLines) := rfl
  obtain ⟨image, himage, hname, s, ds, hmade, hparsed⟩ := madeOf_standard h hwritable hplace
  intro l hl hlname t ht htname
  have hnames := (stack_of_resolve h hwritable).names_nodup
  obtain rfl : l = image := List.inj_on_of_nodup_map hnames hl (List.mem_of_getElem? himage)
    (hlname.trans hname.symm)
  obtain ⟨d, hd, hdeclared⟩ := Lowering.exists_of_forall₂_right hmade.declared ht
  have hasks := StandardLibrary.asksForExecute_of_mem (hparsed d hd)
  have hdname : d.decl.name.name = "Generator" := hdeclared.shows.name.trans htname
  simp only [StandardLibrary.asksForExecute, hdname, bne_self_eq_false, Bool.false_or,
    Bool.and_eq_true, beq_iff_eq, List.any_eq_true, Bool.not_eq_true'] at hasks
  obtain ⟨hkind, m, hm, ⟨hmname, hmstatic⟩, hmparams⟩ := hasks
  refine ⟨hdeclared.shows.kind.symm.trans (by rw [Declaration.symbol, hkind]), ?_⟩
  -- The method is found by what its symbol shows, which is all that is asked.
  have hmem : Declaration.methodSymbol m ∈ t.methods.map .ofDef := by
    rw [← hdeclared.shows.methods]
    exact List.mem_map_of_mem hm
  obtain ⟨found, hfound, heq⟩ := List.mem_map.1 hmem
  have hfname : found.name = m.name.name := congrArg MethodSymbol.name heq
  have hfstatic : found.isStatic = m.isStatic := congrArg MethodSymbol.isStatic heq
  have hfparams : found.params.length = m.params.length := by
    have hlength := congrArg (·.params.length) heq
    simpa [MethodSymbol.ofDef, Declaration.methodSymbol] using hlength
  exact ⟨found, hfound, hfname.trans hmname, hfstatic.trans hmstatic, hfparams.trans hmparams⟩

namespace Hierarchy

variable {h : Hierarchy}

theorem hasClass_of_mem_classes {c : ClassId} (hc : c ∈ h.classes) :
    h.HasClass c ∧ c.module = h.mainIndex := by
  obtain ⟨i, hi, rfl⟩ := List.mem_map.1 hc
  refine ⟨⟨Nat.le_refl _, ?_⟩, rfl⟩
  rw [module_mainIndex]
  exact List.mem_range.1 hi

/-- A class of the module that is run is found under its name. -/
theorem findClass?_nameOf (hlayered : h.Layered) {c : ClassId} (hc : h.HasClass c)
    (hmain : c.module = h.mainIndex) : h.findClass? (h.nameOf c) = some c := by
  have hmem := typeDef_mem hc
  rw [hmain] at hmem
  have hfind := find?_of_nodup (hlayered.joins _ (Nat.le_refl _)).nodup hmem
  obtain ⟨x, hx, -, hclass, hdef⟩ := findIn?_of_find? (Nat.le_refl _) hfind
  rw [findClass?, nameOf, hx, hlayered.unique hclass hc (congrArg TypeDef.name hdef)]

end Hierarchy

namespace Generator

variable {image : Image} {libraries : References} {limits : Limits} {found : List Generator}
  {g : Generator}

/-- Generators that are found in a module are classes of it, of objects that have the capability. -/
theorem of_discover (h : (discover image libraries limits).1 = .ok found) (hg : g ∈ found) :
    ∃ h capability c, Hierarchy.load image libraries = .ok h ∧
      h.findLibraryClass? "Generation" "Generator" = some capability ∧ c ∈ h.classes ∧
      (h.typeDef c).isActivatable = true ∧ h.implements c capability = true ∧
      g = ⟨image, libraries, h.nameOf c, limits⟩ := by
  unfold discover at h
  split at h
  · cases h
  · rename_i hierarchy hload
    dsimp only at h
    split at h
    -- without such a capability nothing is found
    · cases h
    · rename_i capability hcapability
      split at h
      · cases h
      · cases h
        obtain ⟨tried, htried, rfl⟩ := List.mem_map.1 hg
        obtain ⟨c, hc, rfl⟩ := List.mem_map.1 (List.mem_filter.1 htried).1
        obtain ⟨hmem, hfits⟩ := List.mem_filter.1 hc
        rw [Bool.and_eq_true] at hfits
        exact ⟨hierarchy, capability, c, hload, hcapability, hmem, hfits.1, hfits.2, rfl⟩

theorem load_eq_ok {h : Hierarchy} {c : ClassId}
    (hload : Hierarchy.load g.image g.libraries = .ok h)
    (hc : h.findClass? g.className = some c) : g.load = .ok (h, c) := by
  unfold load
  rw [hload]
  simp only [Except.mapError, bind, Except.bind, hc]
  rfl

/-- A generator that is found in a module made of declarations keeps its contract. -/
theorem canExecute_of_discover {options : CompileOptions} {s : SymbolTable} {ds : List Declaration}
    (hmade : MadeOf libraries image options s ds) (hstack : Stack libraries)
    (hasks : References.AskForExecute libraries)
    (h : (discover image libraries limits).1 = .ok found) (hg : g ∈ found) : g.CanExecute := by
  obtain ⟨h, capability, c, hload, hcapability, hc, hactivatable, himplements, rfl⟩ :=
    of_discover h hg
  obtain rfl := Hierarchy.load_ok hload
  have hlayered : Hierarchy.Layered ⟨libraries, image⟩ :=
    Hierarchy.layered_of_stack hstack hmade.joins
  obtain ⟨hclass, hmain⟩ := Hierarchy.hasClass_of_mem_classes hc
  have hhonours : Hierarchy.Honours ⟨libraries, image⟩ c capability :=
    MadeOf.honours (h := ⟨libraries, image⟩) hmade hstack hclass hmain capability
  obtain ⟨l, hl, hlname, hmem, hname⟩ :=
    Hierarchy.typeDef_of_findLibraryClass? (h := ⟨libraries, image⟩) hcapability
  -- the capability asks for a method with one parameter, and the class honours it
  obtain ⟨hkind, wanted, hwanted, hwname, hwstatic, hwparams⟩ := hasks l hl hlname _ hmem hname
  simp only [TypeDef.isActivatable, Bool.and_eq_true, beq_iff_eq, Bool.not_eq_true'] at hactivatable
  obtain ⟨owner, m, hfound, hinstance, hrun, hparams⟩ :=
    hhonours hactivatable.1.1.1 hactivatable.1.1.2 hkind himplements wanted hwanted hwstatic
  rw [hwname] at hfound
  refine ⟨_, c, owner, m, ?_, hfound, hinstance, hrun, ?_⟩
  · exact load_eq_ok hload (Hierarchy.findClass?_nameOf hlayered hclass hmain)
  -- as many parameters as arguments, whichever of them have defaults
  · have hrequired : m.requiredParams ≤ m.params.length := List.length_filter_le _ _
    rw [hparams, hwparams] at hrequired
    rw [MethodDef.accepts, hparams, hwparams, Bool.and_eq_true]
    exact ⟨decide_eq_true hrequired, rfl⟩

end Generator

namespace GeneratorCompiler

/-- The module of a source, as its compiler makes it. -/
def module (s : GeneratorCompiler) (source : String) (libraries : References) : Compilation :=
  .ofUnits "Generator" [⟨s.fileName, source⟩] libraries .library

theorem readBack_ok {c : Compilation} {image : Image} (h : readBack c = .ok image) :
    c.hasErrors = false ∧ Image.decode c.image.encode = .ok image := by
  unfold readBack at h
  split at h
  · cases h
  · rename_i hok
    obtain ⟨bytes, hbytes, h⟩ := bind_eq_ok h
    have hemit := mapError_eq_ok hbytes
    unfold Compilation.emit at hemit
    split at hemit <;> cases hemit
    exact ⟨Bool.eq_false_iff.2 hok, mapError_eq_ok h⟩

theorem of_build {s : GeneratorCompiler} {source : String} {libraries : References}
    {patience left : Patience} {found : List Generator}
    (h : (s.build source libraries patience).1 = .ok (found, left)) :
    ∃ image, readBack (s.module source libraries) = .ok image ∧
      (Generator.discover image libraries s.limits).1 = .ok found := by
  unfold build at h
  dsimp only at h
  split at h
  · cases h
  · rename_i image waiting hbuilt
    -- one stage after the other: none of them can have failed
    obtain ⟨⟨c, between⟩, hcreate, hbuilt⟩ := bind_eq_ok hbuilt
    obtain ⟨image', himage, hbuilt⟩ := bind_eq_ok hbuilt
    obtain ⟨last, -, hbuilt⟩ := bind_eq_ok hbuilt
    cases hbuilt
    obtain rfl := Compilation.eq_ofUnits_of_create (mapError_eq_ok hcreate)
    obtain ⟨found', hfound, hpair⟩ := map_eq_ok h
    cases hpair
    exact ⟨image, himage, hfound⟩

/-- A source for which there are generators has the same for those who never give up. -/
theorem build_never {s : GeneratorCompiler} {source : String} {libraries : References}
    {patience left : Patience} {found : List Generator}
    (h : (s.build source libraries patience).1 = .ok (found, left)) :
    (s.build source libraries none).1 = .ok (found, none) := by
  obtain ⟨image, himage, hfound⟩ := of_build h
  unfold module at himage
  unfold build
  simp only [Compilation.create_never, himage, Patience.check_none, Except.mapError, bind,
    Except.bind, pure, Except.pure, hfound, Except.map]

end GeneratorCompiler

/-! ## Contracts hold -/

section

variable {sources : List LibrarySource} {patience left : Patience} {references : References}
  (hresolve : References.resolve sources patience = .ok (references, left))
  (hwritable : References.Writable sources references)

include hresolve hwritable

/-- Once a compilation without errors is loaded with its libraries, as it was made or as it was read
back, classes of the module and of the libraries keep the contracts of all their capabilities. So
the generators of a module can be asked to generate: where the standard libraries come first, or
`Generation::Generator` asks for the same, `Execute` can be called with one argument on each that is
found. -/
theorem contracts_hold :
    (∀ name units options,
      (Compilation.ofUnits name units references options).hasErrors = false →
      (∃ h, Hierarchy.load (Compilation.ofUnits name units references options).image references =
          .ok h ∧
        ∀ x, h.HasClass x → ∀ y, h.Honours x y) ∧
      ((Compilation.ofUnits name units references options).image.toPack.isWritable = true → ∀ h,
        Hierarchy.loadBytes (Compilation.ofUnits name units references options).image.encode
          references = .ok h →
        ∀ x, h.HasClass x → ∀ y, h.Honours x y)) ∧
    ((∃ more, sources = .standard :: more) → references.AskForExecute) ∧
    (references.AskForExecute → ∀ (s : GeneratorCompiler) source given found rest,
      (s.module source references).image.toPack.isWritable = true →
      (s.build source references given).1 = .ok (found, rest) → ∀ g ∈ found, g.CanExecute) := by
  have hstack := References.stack_of_resolve hresolve hwritable
  have hbuilt := References.built_of_resolve hresolve hwritable
  refine ⟨?_, ?_, ?_⟩
  · intro name units options hok
    obtain ⟨ds, hmade, -⟩ := Compilation.madeOf_of_ok hok hstack.types_nodup
    have hhonours := fun x hx y =>
      MadeOf.honours_all (h := ⟨references, _⟩) (x := x) hmade hstack hbuilt hx y
    refine ⟨⟨_, Hierarchy.load_image _, hhonours⟩, fun himage h hload => ?_⟩
    obtain rfl := Hierarchy.load_of_loadBytes himage hload
    exact hhonours
  · rintro ⟨more, rfl⟩
    exact References.askForExecute_standard hresolve hwritable
  · intro hasks s source given found rest hsource hfound g hg
    obtain ⟨image, himage, hdiscover⟩ := GeneratorCompiler.of_build hfound
    obtain ⟨hok, hdecode⟩ := GeneratorCompiler.readBack_ok himage
    obtain ⟨ds, hmade, -⟩ := Compilation.madeOf_of_ok hok hstack.types_nodup
    obtain rfl := Image.eq_of_decode hsource hdecode
    exact Generator.canExecute_of_discover hmade hstack hasks hdiscover hg

end

/-! ## Two generators -/

/-- What generators have to be, without all that is not needed for it. -/
def contractLibrary : String :=
  "capability Generator { fn Execute(context); }"

def contractSources : List LibrarySource :=
  [.ofList [("Generation", some (Pack.utf8 contractLibrary))]]

def contractReferences : References :=
  (References.resolveToEnd contractSources).toOption.getD []

/-- Two generators, one of which inherits what it has to do. -/
def contractSource : String :=
  "type A : Generator { fn Execute(c) {} } type B : A {}"

def contractCompiler : GeneratorCompiler :=
  { limits := { fuel := 16 } }

theorem contract_evaluates :
    (References.resolveToEnd contractSources).isOk = true ∧
      (∀ before ∈ contractReferences.inits,
        (Compilation.ofUnits "Generation" [⟨"Generation.gen", contractLibrary⟩] before
          .referenceLibrary).image.toPack.isWritable = true) ∧
      (contractCompiler.module contractSource contractReferences).hasErrors = false ∧
      (contractCompiler.module contractSource contractReferences).image.toPack.isWritable = true ∧
      (contractCompiler.build contractSource contractReferences none).1.isOk = true ∧
      contractReferences.all (fun l => l.types.all fun t => t.kind == .capability &&
        t.methods.any fun m =>
          m.name == "Execute" && !m.isStatic && m.params.length == 1) = true := by
  decide +kernel

/-- The class that inherits its method keeps the contract too, and both generators are found. -/
theorem contracts_hold_inherited :
    References.resolve contractSources none = .ok (contractReferences, none) ∧
      References.Writable contractSources contractReferences ∧
      (∃ h, Hierarchy.load (contractCompiler.module contractSource contractReferences).image
          contractReferences = .ok h ∧ ∀ x, h.HasClass x → ∀ y, h.Honours x y) ∧
      ∃ found, (contractCompiler.build contractSource contractReferences none).1 =
          .ok (found, none) ∧
        ∀ g ∈ found, g.CanExecute := by
  obtain ⟨hisOk, hinits, hok, hsource, hbuilt, hall⟩ := contract_evaluates
  have hresolve := References.resolve_of_isOk hisOk
  have hwritable : References.Writable contractSources contractReferences :=
    References.writable_single hinits
  obtain ⟨hloaded, -, hexecute⟩ := contracts_hold hresolve hwritable
  have hasks : contractReferences.AskForExecute := by
    intro l hl _ t ht _
    have ht := List.all_eq_true.1 (List.all_eq_true.1 hall l hl) t ht
    simpa [and_assoc] using ht
  refine ⟨hresolve, hwritable, (hloaded _ _ _ hok).1, ?_⟩
  cases hbuild : (contractCompiler.build contractSource contractReferences none).1 with
  | ok built =>
    obtain ⟨found, left⟩ := built
    have hnever := GeneratorCompiler.build_never hbuild
    rw [hbuild] at hnever
    cases hnever
    exact ⟨found, rfl, hexecute hasks contractCompiler contractSource none found _ hsource hbuild⟩
  | error e =>
    rw [hbuild] at hbuilt
    cases hbuilt

end GenLang
