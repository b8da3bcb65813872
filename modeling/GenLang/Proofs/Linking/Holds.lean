import GenLang.Proofs.Linking.Classes

/-!
# Links that hold

A link holds in a loaded module if a run that looks it up from there finds what the compilation
found: the type, a static method that takes so many arguments, a static field of the type itself.
-/

namespace GenLang

theorem MethodSymbol.accepts_ofDef (m : MethodDef) (count : Nat) :
    (MethodSymbol.ofDef m).accepts count = m.accepts count := by
  have hrequired : (MethodSymbol.ofDef m).requiredParams = m.requiredParams := by
    unfold requiredParams MethodDef.requiredParams ofDef
    rw [List.filter_map, List.length_map]
    refine congrArg (fun p => (m.params.filter p).length) (funext fun p => ?_)
    cases h : p.default <;> simp [h]
  simp only [accepts, MethodDef.accepts, hrequired]
  rw [ofDef, List.length_map]

theorem Shows.method? {s : TypeSymbol} {t : TypeDef} (h : Shows s t) (name : String) :
    s.method? name = (t.findMethod? name).map .ofDef := by
  unfold TypeSymbol.method? TypeDef.findMethod?
  rw [h.methods, List.find?_map]
  rfl

theorem Shows.field? {s : TypeSymbol} {t : TypeDef} (h : Shows s t) (name : String) :
    s.field? name = (t.findField? name).map fun f => ⟨f.name, f.isStatic⟩ := by
  unfold TypeSymbol.field? TypeDef.findField?
  rw [h.fields, List.find?_map]
  rfl

namespace Hierarchy

variable {h : Hierarchy}

/-- Whether a link holds in a module. -/
def holds (h : Hierarchy) (module : Nat) : Link → Bool
  | .type r => (h.resolve? module r).any fun x => (h.typeDef x).name == r.name
  | .call owner method count =>
    (h.resolve? module owner).any fun x =>
      (h.findMethod? x method).any fun found => found.2.isStatic && found.2.accepts count
  | .field owner name =>
    (h.resolve? module owner).any fun x =>
      ((h.typeDef x).findField? name).any (·.isStatic)

/-- The first of its ancestors is a class itself. -/
theorem ancestors_eq_cons (h : Hierarchy) (x : ClassId) : ∃ xs, h.ancestors x = x :: xs :=
  ⟨_, rfl⟩

theorem findMethod?_of_own {x : ClassId} {name : String} {m : MethodDef}
    (hm : (h.typeDef x).findMethod? name = some m) : h.findMethod? x name = some (x, m) := by
  obtain ⟨xs, hxs⟩ := ancestors_eq_cons h x
  rw [findMethod?, hxs, List.findSome?_cons, hm]
  rfl

theorem staticOwner?_of_own {x : ClassId} {name : String}
    (hfield : ((h.typeDef x).findField? name).any (·.isStatic)) :
    h.staticOwner? x name = some x := by
  obtain ⟨xs, hxs⟩ := ancestors_eq_cons h x
  rw [staticOwner?, hxs, List.find?_cons, hfield]

/-- What a table knows holds, if its symbols stand for classes. -/
theorem holds_of_known {s : SymbolTable} (hs : ∀ t ∈ s.types, ∃ x, h.Stands t x) {l : Link}
    (hl : l.Known s) : h.holds h.mainIndex l := by
  cases l with
  | type r =>
    obtain ⟨t, ht, rfl⟩ := hl
    obtain ⟨x, hx⟩ := hs t ht
    rw [holds, hx.resolve]
    exact beq_iff_eq.2 hx.shows.name.symm
  | call owner method count =>
    obtain ⟨t, ht, rfl, m, hm, hstatic, haccepts⟩ := hl
    obtain ⟨x, hx⟩ := hs t ht
    rw [hx.shows.method?, Option.map_eq_some_iff] at hm
    obtain ⟨d, hd, rfl⟩ := hm
    rw [MethodSymbol.accepts_ofDef] at haccepts
    rw [holds, hx.resolve, Option.any_some, findMethod?_of_own hd, Option.any_some,
      Bool.and_eq_true]
    exact ⟨hstatic, haccepts⟩
  | field owner name =>
    obtain ⟨t, ht, rfl, f, hf, hstatic⟩ := hl
    obtain ⟨x, hx⟩ := hs t ht
    rw [hx.shows.field?, Option.map_eq_some_iff] at hf
    obtain ⟨d, hd, rfl⟩ := hf
    rw [holds, hx.resolve, Option.any_some, hd]
    exact hstatic

section

variable {name : String} {units : List SourceUnit} {references : List Image}
  {options : CompileOptions}

/-- All links of a module hold once it is loaded with the libraries it was compiled against. -/
theorem links_hold (hok : (Compilation.ofUnits name units references options).hasErrors = false)
    (hload : load (Compilation.ofUnits name units references options).image references = .ok h)
    (hnames : (references.map (·.name)).Nodup) :
    ∀ t ∈ h.main.types, ∀ l ∈ t.links, h.holds h.mainIndex l := by
  have hstands := exists_stands hok hload hnames
  obtain ⟨ds, -, hlowered, -⟩ := Compilation.declarations_of_ok hok
  obtain rfl := load_ok hload
  intro t ht l hl
  obtain ⟨d, -, hd⟩ := Lowering.exists_of_forall₂_right hlowered ht
  exact holds_of_known hstands (hd.known l hl)

end

end Hierarchy

end GenLang
