import GenLang.Proofs.Linking.Contracts
import GenLang.Proofs.Running.Guarded

/-!
# What sites need

Where code without errors makes an object or calls a static method, the compilation has found a
class that objects can be made of, or a method with something to run, and so does every run.
-/

namespace GenLang

/-! ## Methods with something to run -/

/-- All static methods that are native are bound. -/
def Image.Bound (natives : String → String → Option Native) (image : Image) : Prop :=
  ∀ t ∈ image.types, ∀ m ∈ t.methods, m.isStatic → m.isNative → (natives t.name m.name).isSome

def References.Bound (natives : String → String → Option Native) (references : References) : Prop :=
  ∀ l ∈ references, l.Bound natives

/-- All static methods of classes have something to run. -/
def Image.Executes (natives : String → String → Option Native) (image : Image) : Prop :=
  ∀ t ∈ image.types, t.kind = .class_ → ∀ m ∈ t.methods, m.isStatic → t.executes natives m

namespace Declaration

variable {s : SymbolTable} {decl : TypeDecl} {options : CompileOptions} {m : MethodDecl}

/-- Where nothing is wrong with a method, it is native only if it may be. -/
theorem isNative_of_no_faults (h : methodFaults s decl options m = [])
    (hnative : options.allowNative = false) : m.isNative = false := by
  simp only [methodFaults, List.append_eq_nil_iff] at h
  cases hm : m.isNative with
  | false => rfl
  | true =>
    rw [hm, hnative] at h
    cases h.1.1

/-- Where nothing is wrong with a method of a type, it has a body or is native. -/
theorem hasBody_of_no_faults (h : methodFaults s decl options m = []) (hkind : decl.kind = .type)
    (hnative : m.isNative = false) : m.body.isSome = true := by
  simp only [methodFaults, List.append_eq_nil_iff] at h
  cases hbody : m.body.isSome with
  | true => rfl
  | false =>
    have hfault := h.1.2
    simp [bodyFault?, hkind, hbody, hnative] at hfault

end Declaration

namespace MadeOf

variable {libraries : List Image} {image : Image} {options : CompileOptions} {s : SymbolTable}
  {ds : List Declaration} (h : MadeOf libraries image options s ds)

include h

/-- Every method was declared without faults. -/
theorem method {t : TypeDef} (ht : t ∈ image.types) {m : MethodDef} (hm : m ∈ t.methods) :
    ∃ d ∈ ds, Declared s d t ∧ ∃ decl ∈ d.decl.methods,
      Declaration.methodSymbol decl = .ofDef m ∧
        Declaration.methodFaults s d.decl options decl = [] := by
  obtain ⟨d, hd, hdeclared⟩ := Lowering.exists_of_forall₂_right h.declared ht
  have hmem : MethodSymbol.ofDef m ∈ d.symbol.methods := by
    rw [hdeclared.shows.methods]
    exact List.mem_map_of_mem hm
  obtain ⟨decl, hdecl, heq⟩ := List.mem_map.1 hmem
  exact ⟨d, hd, hdeclared, decl, hdecl, heq,
    Declaration.methodFaults_of_no_faults (h.faults d hd) hdecl⟩

/-- Without native methods nothing has to be bound. -/
theorem bound (hnative : options.allowNative = false)
    (natives : String → String → Option Native) : image.Bound natives := by
  intro t ht m hm _ hmnative
  obtain ⟨d, -, -, decl, -, heq, hfaults⟩ := h.method ht hm
  have hsame : decl.isNative = m.isNative := congrArg MethodSymbol.isNative heq
  rw [← hsame, Declaration.isNative_of_no_faults hfaults hnative] at hmnative
  cases hmnative

theorem executes {natives : String → String → Option Native} (hbound : image.Bound natives) :
    image.Executes natives := by
  intro t ht hkind m hm hstatic
  rw [TypeDef.executes]
  cases hnative : m.isNative with
  | true => exact hbound t ht m hm hstatic hnative
  | false =>
    obtain ⟨d, -, hdeclared, decl, -, heq, hfaults⟩ := h.method ht hm
    have hdnative : decl.isNative = m.isNative := congrArg MethodSymbol.isNative heq
    have hbody : decl.body.isSome = m.body.isSome := congrArg MethodSymbol.hasBody heq
    rw [← hbody]
    exact Declaration.hasBody_of_no_faults hfaults (hdeclared.kind_eq hkind)
      (hdnative.trans hnative)

end MadeOf

/-- Alone, the standard libraries have all their natives. -/
theorem References.bound_standard {patience left : Patience} {references : References}
    (h : resolve [.standard] patience = .ok (references, left))
    (hwritable : Writable [.standard] references) : Bound Native.find? references := by
  obtain ⟨libraries, hlibraries, hlength, -⟩ := compiled_of_resolve h
  rw [enumerate_standard_alone] at hlibraries
  cases hlibraries
  intro l hl t ht m hm hstatic hnative
  obtain ⟨i, hi, hget⟩ := List.getElem_of_mem hl
  have hlt : i < StandardLibrary.all.length := by simpa [hlength] using hi
  have hlibrary : StandardLibrary.all[i]? = some StandardLibrary.all[i] :=
    List.getElem?_eq_getElem hlt
  obtain ⟨image, himage, -, s, ds, hmade, hparsed⟩ := madeOf_standard h hwritable hlibrary
  obtain rfl : l = image := by
    rw [List.getElem?_eq_getElem hi, hget] at himage
    exact Option.some.inj himage
  obtain ⟨d, hd, hdeclared, decl, hdecl, heq, -⟩ := hmade.method ht hm
  -- The text of the library declares a method as native only if there is code for it.
  have hbinds := StandardLibrary.bindsNatives_of_mem (List.getElem_mem _) (hparsed d hd)
  have hbound := List.all_eq_true.1 hbinds decl hdecl
  have hname : decl.name.name = m.name := congrArg MethodSymbol.name heq
  have hdstatic : decl.isStatic = m.isStatic := congrArg MethodSymbol.isStatic heq
  have hdnative : decl.isNative = m.isNative := congrArg MethodSymbol.isNative heq
  have htname : d.decl.name.name = t.name := hdeclared.shows.name
  rwa [hdstatic, hstatic, hdnative, hnative, hname, htname] at hbound

/-! ## Sites -/

namespace Mirrors

variable {s : SymbolTable} {h : Hierarchy} (hm : Mirrors s h) {t : TypeSymbol} {x : ClassId}
  (hx : h.Stands t x)

include hm hx

/-- The constructor that the compilation found is the one that a run finds. -/
theorem constructor? : s.constructor? t.name =
    ((h.findMethod? x "init").filter (!·.2.isStatic)).map fun found => .ofDef found.2 := by
  have hmethod := congrArg (Option.map Prod.snd) (hm.method? hx.hasClass "init")
  rw [Option.map_map, Option.map_map] at hmethod
  have hsymbol : (s.method? (h.nameOf x) "init").map (·.2) =
      (h.findMethod? x "init").map fun found => .ofDef found.2 := hmethod
  rw [SymbolTable.constructor?, hx.shows.name, ← Hierarchy.nameOf, hsymbol, Option.filter_map]
  rfl

theorem constructs (hclass : (t.isCapability || t.isAbstract || t.isStatic) = false) {count : Nat}
    (hcount : s.constructs t.name count) : h.constructs x count := by
  simp only [Bool.or_eq_false_iff] at hclass
  obtain ⟨⟨hcapability, habstract⟩, hstatic⟩ := hclass
  have hkind : (h.typeDef x).kind = .class_ := by
    rw [TypeSymbol.isCapability, hx.shows.kind] at hcapability
    cases hk : (h.typeDef x).kind with
    | class_ => rfl
    | capability =>
      rw [hk] at hcapability
      cases hcapability
  -- without a constructor, exactly no arguments are accepted, in the table as in what is loaded
  have hconstructor : ((((h.findMethod? x "init").filter (!·.2.isStatic)).map
      (·.2.accepts count)).getD (count == 0)) = true := by
    rw [SymbolTable.constructs, hm.constructor? hx] at hcount
    cases hfound : (h.findMethod? x "init").filter (!·.2.isStatic) with
    | none =>
      rw [hfound] at hcount
      exact hcount
    | some found =>
      rw [hfound] at hcount
      exact (MethodSymbol.accepts_ofDef found.2 count).symm.trans hcount
  rw [Hierarchy.constructs, ← hx.shows.isAbstract, habstract, ← hx.shows.isStatic, hstatic, hkind]
  exact hconstructor

end Mirrors

namespace Hierarchy

variable {h : Hierarchy}

theorem constructs_upTo (hlayered : h.Layered) {m : Nat} (hm : m ≤ h.mainIndex) {x : ClassId}
    (hx : h.HasClass x) (hle : x.module ≤ m) (count : Nat) :
    (h.upTo m).constructs x count = h.constructs x count := by
  rw [constructs, constructs, typeDef_upTo hm hle, findMethod?_upTo hm hlayered hx hle]

/-- A static method of a class itself can be called, if classes have what they are to run. -/
theorem calls_of_own {env : Environment} {x : ClassId} (hx : env.hierarchy.HasClass x)
    (hexecutes : (env.hierarchy.module x.module).Executes env.natives) {name : String}
    {m : MethodDef} (hm : (env.hierarchy.typeDef x).findMethod? name = some m)
    (hstatic : m.isStatic) {count : Nat} (haccepts : m.accepts count) :
    env.calls x name count := by
  have hrun : ((env.hierarchy.typeDef x).kind == .capability ||
      (env.hierarchy.typeDef x).executes env.natives m) = true := by
    cases hkind : (env.hierarchy.typeDef x).kind with
    | capability => rfl
    | class_ =>
      rw [hexecutes _ (typeDef_mem hx) hkind m (List.mem_of_find?_eq_some hm) hstatic,
        Bool.or_true]
  rw [Environment.calls, findMethod?_of_own hm, Option.any_some]
  simp only [hstatic, haccepts, hrun, Bool.and_self]

/-- What the table of a module knows of a site is provided when its code runs, whatever modules come
behind it. -/
theorem provides_of_known {env : Environment} (hlayered : env.hierarchy.Layered)
    (hstack : Stack env.hierarchy.libraries)
    (hexecutes : ∀ m ≤ env.hierarchy.mainIndex, (env.hierarchy.module m).Executes env.natives)
    {m : Nat} (hm : m ≤ env.hierarchy.mainIndex) {options : CompileOptions} {s : SymbolTable}
    {ds : List Declaration}
    (hmade : MadeOf (env.hierarchy.libraries.take m) (env.hierarchy.module m) options s ds)
    {site : Site} (hsite : site.Known s) : env.provides m site := by
  -- The module was compiled against the modules before it, so only these are looked at.
  have hmirrors : Mirrors s (env.hierarchy.upTo m) :=
    MadeOf.mirrors (h := env.hierarchy.upTo m) hmade (hstack.take m)
  -- modules behind it change nothing about what a reference stands for
  have hresolve {t : TypeSymbol} (ht : t ∈ s.types) {x : ClassId}
      (hx : (env.hierarchy.upTo m).Stands t x) : env.hierarchy.resolve? m t.ref = some x := by
    obtain ⟨u, hu, -⟩ := hmade.declares ht
    have hfound := hx.resolve
    rwa [mainIndex_upTo hm, resolve?_upTo hm hlayered (Nat.le_refl m) hu] at hfound
  cases site with
  | new r count =>
    obtain ⟨t, ht, rfl, hclass, hcount⟩ := hsite
    obtain ⟨x, hx⟩ := hmirrors.stands t ht
    obtain ⟨hhas, hle⟩ := (hasClass_upTo hm).1 hx.hasClass
    rw [Environment.provides, hresolve ht hx, Option.any_some,
      ← constructs_upTo hlayered hm hhas hle]
    exact hmirrors.constructs hx hclass hcount
  | call owner method count =>
    obtain ⟨t, ht, rfl, found, hfound, hstatic, haccepts⟩ :=
      hsite _ (List.mem_cons_of_mem _ List.mem_cons_self)
    obtain ⟨x, hx⟩ := hmirrors.stands t ht
    obtain ⟨hhas, hle⟩ := (hasClass_upTo hm).1 hx.hasClass
    have hshows := hx.shows
    rw [typeDef_upTo hm hle] at hshows
    rw [hshows.method?, Option.map_eq_some_iff] at hfound
    obtain ⟨d, hd, rfl⟩ := hfound
    rw [MethodSymbol.accepts_ofDef] at haccepts
    rw [Environment.provides, hresolve ht hx, Option.any_some]
    exact calls_of_own hhas (hexecutes _ hhas.module) hd hstatic haccepts
  | type _ | field _ _ => rfl

/-- Code is provided with what its sites need, if every module is made of declarations. -/
theorem provided_of_made {env : Environment} (hlayered : env.hierarchy.Layered)
    (hstack : Stack env.hierarchy.libraries)
    (hexecutes : ∀ m ≤ env.hierarchy.mainIndex, (env.hierarchy.module m).Executes env.natives)
    (hmade : ∀ m ≤ env.hierarchy.mainIndex, ∃ options s ds,
      MadeOf (env.hierarchy.libraries.take m) (env.hierarchy.module m) options s ds)
    (x : ClassId) : ∀ site ∈ (env.hierarchy.typeDef x).sites,
      Evaluator.Provided env x.module site := by
  intro site hsite hm
  rcases env.hierarchy.typeDef_mem_or x with hx | hx
  · obtain ⟨options, s, ds, hmade⟩ := hmade x.module hm
    obtain ⟨d, -, hd⟩ := Lowering.exists_of_forall₂_right hmade.lowered hx
    exact provides_of_known hlayered hstack hexecutes hm hmade (hd.sitesKnown site hsite)
  · rw [hx] at hsite
    exact absurd hsite List.not_mem_nil

end Hierarchy

/-! ## Nothing is lacking -/

open Evaluator

/-- Every run of a program is as its guarded run, which ends as soon as a site lacks what it
needs. -/
def Hierarchy.NeverLacks (natives : String → String → Option Native) (h : Hierarchy) : Prop :=
  ∀ (ending : Stop) (fuel : Nat) (env : Environment) (m : Machine), env.hierarchy = h →
    env.natives = natives →
    (∀ c method args, (ofFuel fuel).callStatic c method args env m =
      (guardedOfFuel ending fuel).callStatic c method args env m) ∧
    (∀ v method args, (ofFuel fuel).callValue v method args env m =
      (guardedOfFuel ending fuel).callValue v method args env m) ∧
    (∀ c args, (ofFuel fuel).construct c args env m =
      (guardedOfFuel ending fuel).construct c args env m) ∧
    ∀ v, (ofFuel fuel).display v env m = (guardedOfFuel ending fuel).display v env m

theorem MadeOf.neverLacks {h : Hierarchy} {options : CompileOptions} {s : SymbolTable}
    {ds : List Declaration} (hmade : MadeOf h.libraries h.main options s ds)
    (hstack : Stack h.libraries) (hbuilt : References.Built h.libraries)
    {natives : String → String → Option Native} (hbound : References.Bound natives h.libraries)
    (hnative : options.allowNative = false) : h.NeverLacks natives := by
  rintro ending fuel env m rfl rfl
  have hlayered := Hierarchy.layered_of_stack hstack hmade.joins
  have hall : ∀ i ≤ env.hierarchy.mainIndex, (env.hierarchy.module i).Bound env.natives ∧
      ∃ options s ds, MadeOf (env.hierarchy.libraries.take i) (env.hierarchy.module i) options s
        ds := by
    intro i hi
    -- libraries are bound to the code they ask for; the main module asks for none
    rcases Nat.lt_or_eq_of_le hi with hlibrary | rfl
    · rw [Hierarchy.module_of_lt hlibrary]
      obtain ⟨s, ds, hmade⟩ := hbuilt i _ (List.getElem?_eq_getElem hlibrary)
      exact ⟨hbound _ (List.getElem_mem _), _, s, ds, hmade⟩
    · rw [Hierarchy.module_mainIndex, Hierarchy.mainIndex, List.take_length]
      exact ⟨hmade.bound hnative _, options, s, ds, hmade⟩
  have hexecutes : ∀ i ≤ env.hierarchy.mainIndex,
      (env.hierarchy.module i).Executes env.natives := by
    intro i hi
    obtain ⟨hbound, options, s, ds, hmade⟩ := hall i hi
    exact hmade.executes hbound
  have hcode := Hierarchy.provided_of_made hlayered hstack hexecutes fun i hi => (hall i hi).2
  exact runs_eq (same_guarded hcode fuel) hcode m

section

variable {sources : List LibrarySource} {patience left : Patience} {references : References}
  (hresolve : References.resolve sources patience = .ok (references, left))
  (hwritable : References.Writable sources references)

include hresolve hwritable

/-- Nothing is lacking where a program without errors makes an object or calls a static method, nor
where its libraries do, in whatever run, if the native methods of the libraries are bound; those of
the standard libraries are. What compilations do not look at are the type parameters of a type and
whether a method is one of a capability. -/
theorem sites_provided :
    (sources = [.standard] → references.Bound Native.find?) ∧
    ∀ natives, references.Bound natives → ∀ name units options, options.allowNative = false →
      (Compilation.ofUnits name units references options).hasErrors = false →
      (∃ h, Hierarchy.load (Compilation.ofUnits name units references options).image references =
          .ok h ∧ h.NeverLacks natives) ∧
      ((Compilation.ofUnits name units references options).image.toPack.isWritable = true → ∀ h,
        Hierarchy.loadBytes (Compilation.ofUnits name units references options).image.encode
          references = .ok h → h.NeverLacks natives) := by
  refine ⟨?_, ?_⟩
  · rintro rfl
    exact References.bound_standard hresolve hwritable
  · intro natives hbound name units options hnative hok
    have hstack := References.stack_of_resolve hresolve hwritable
    have hbuilt := References.built_of_resolve hresolve hwritable
    obtain ⟨ds, hmade, -⟩ := Compilation.madeOf_of_ok hok hstack.types_nodup
    have hnever := MadeOf.neverLacks (h := ⟨references, _⟩) hmade hstack hbuilt hbound hnative
    refine ⟨⟨_, Hierarchy.load_image _, hnever⟩, fun himage h hload => ?_⟩
    obtain rfl := Hierarchy.load_of_loadBytes himage hload
    exact hnever

end

/-! ## A module that needs something -/

/-- A type whose static fields are made of an object of it and of what its library does. -/
def needyUnits : List SourceUnit :=
  [⟨"M.gen", "type B : A \x7b static let m = A.F(); static let n = new B(); \x7d"⟩]

theorem needy_evaluates :
    (Compilation.ofUnits "M" needyUnits leafReferences .library).hasErrors = false ∧
      (leafReferences.all fun l => l.types.all fun t => t.methods.all fun m =>
        !(m.isStatic && m.isNative) || (Native.find? t.name m.name).isSome) = true := by
  decide +kernel

/-- The method of the library can be called, and the object made. -/
theorem sites_provided_needy :
    References.resolve leafSources none = .ok (leafReferences, none) ∧
      References.Writable leafSources leafReferences ∧
      leafReferences.Bound Native.find? ∧
      (Compilation.ofUnits "M" needyUnits leafReferences .library).hasErrors = false ∧
      ∃ h, Hierarchy.load (Compilation.ofUnits "M" needyUnits leafReferences .library).image
        leafReferences = .ok h ∧ h.NeverLacks Native.find? := by
  obtain ⟨hok, hall⟩ := needy_evaluates
  have hbound : leafReferences.Bound Native.find? := by
    intro l hl t ht m hm hstatic hnative
    have hm := List.all_eq_true.1 (List.all_eq_true.1 (List.all_eq_true.1 hall l hl) t ht) m hm
    rwa [hstatic, hnative] at hm
  exact ⟨resolve_leaf, writable_leaf, hbound, hok,
    ((sites_provided resolve_leaf writable_leaf).2 _ hbound _ _ _ rfl hok).1⟩

/-- How the run of a program ends that has no errors and needs no library. -/
def endOf (text : String) : Option (String × String) :=
  let c := Compilation.ofUnits "Program" [⟨"Program.gen", text⟩] [] .executable
  let h : Hierarchy := ⟨[], c.image⟩
  match EntryPoint.find h with
  | .error _ => none
  | .ok entry =>
    match (entry.run h { fuel := 16 }).1 with
    | .error e => if c.hasErrors then none else some e.summary
    | .ok _ => none

/-- What is not looked at can be lacking: an object of a type with a type parameter is not made, and
a method of a capability is not called. -/
theorem sites_not_provided :
    endOf "type Box<T> \x7b\x7d type Program \x7b static fn Main() \x7b new Box(); \x7d \x7d" =
      some ("InvalidOperationException", "Cannot create an instance of 'Box'.") ∧
    endOf ("capability C \x7b static fn M(); \x7d " ++
        "type Program \x7b static fn Main() \x7b C.M(); \x7d \x7d") =
      some ("MissingMethodException", "Method 'C.M' has no implementation.") := by
  decide +kernel

end GenLang
