import GenLang.Proofs.Linking.Libraries
import GenLang.Proofs.Running.Strict

/-!
# Static linking is sound

What a compilation without errors resolves is found again when its module is loaded with the same
libraries, and no run misses it.
-/

namespace GenLang

namespace Hierarchy

/-- A compilation is loaded with the libraries it was compiled against. -/
theorem load_image (c : Compilation) : load c.image c.references = .ok ⟨c.references, c.image⟩ := by
  have hnone : c.image.references.find? (fun r => !c.references.any (·.name == r)) = none := by
    rw [List.find?_eq_none]
    intro r hr
    obtain ⟨l, hl, rfl⟩ := List.mem_map.1 hr
    simp only [Bool.not_eq_true', Bool.not_eq_false]
    exact List.any_eq_true.2 ⟨l, hl, beq_self_eq_true _⟩
  rw [load, hnone]

/-- What is read back is loaded as it was compiled. -/
theorem load_of_loadBytes {c : Compilation} (hwritable : c.image.toPack.isWritable) {h : Hierarchy}
    (hload : loadBytes c.image.encode c.references = .ok h) : h = ⟨c.references, c.image⟩ := by
  obtain ⟨image, hdecode, hload⟩ := bind_eq_ok hload
  obtain rfl := Image.eq_of_decode hwritable (mapError_eq_ok hdecode)
  exact load_ok hload

end Hierarchy

open Evaluator

/-- Every run of a program is as its strict run, which ends as soon as code of the module that is
run misses a link. -/
def Hierarchy.NeverMisses (h : Hierarchy) : Prop :=
  ∀ (ending : Stop) (fuel : Nat) (env : Environment) (m : Machine), env.hierarchy = h →
    (∀ c method args, (ofFuel fuel).callStatic c method args env m =
      (strictOfFuel ending fuel).callStatic c method args env m) ∧
    (∀ v method args, (ofFuel fuel).callValue v method args env m =
      (strictOfFuel ending fuel).callValue v method args env m) ∧
    (∀ c args, (ofFuel fuel).construct c args env m =
      (strictOfFuel ending fuel).construct c args env m) ∧
    ∀ v, (ofFuel fuel).display v env m = (strictOfFuel ending fuel).display v env m

theorem Hierarchy.neverMisses_of_links {h : Hierarchy}
    (hlinks : ∀ t ∈ h.main.types, ∀ l ∈ t.links, h.holds h.mainIndex l) : h.NeverMisses := by
  rintro ending fuel env m rfl
  have hcode := linked_of_links hlinks
  exact runs_eq (same_strict hcode fuel) hcode m

/-- All links of a module hold once it is loaded, so that no run misses one. -/
theorem static_linking_sound {sources : List LibrarySource} {patience left : Patience}
    {references : References} {name : String} {units : List SourceUnit} {options : CompileOptions}
    (hresolve : References.resolve sources patience = .ok (references, left))
    (hwritable : References.Writable sources references)
    (hok : (Compilation.ofUnits name units references options).hasErrors = false) :
    ∃ h, Hierarchy.load (Compilation.ofUnits name units references options).image references =
        .ok h ∧
      (∀ t ∈ (Compilation.ofUnits name units references options).types, ∀ l ∈ t.links,
        h.holds h.mainIndex l) ∧ h.NeverMisses := by
  obtain ⟨h, hload⟩ : ∃ h, Hierarchy.load
      (Compilation.ofUnits name units references options).image references = .ok h :=
    ⟨_, Hierarchy.load_image (Compilation.ofUnits name units references options)⟩
  have hnames := (References.stack_of_resolve hresolve hwritable).names_nodup
  have hlinks := Hierarchy.links_hold hok hload hnames
  refine ⟨h, hload, ?_, Hierarchy.neverMisses_of_links hlinks⟩
  rw [Hierarchy.load_ok hload] at hlinks ⊢
  exact hlinks

/-! ## A module and its library -/

/-- A library with a capability and a type that has it. -/
def leafLibrary : String :=
  "capability C {} type A : C { static fn F(x = 1) {} }"

def leafSources : List LibrarySource :=
  [.ofList [("L", some (Pack.utf8 leafLibrary))]]

def leafReferences : References :=
  (References.resolveToEnd leafSources).toOption.getD []

/-- A type based on one of the library, which it calls. -/
def leafUnits : List SourceUnit :=
  [⟨"M.gen", "type B : A { static let m = A.F(); static let n = B.m; }"⟩]

/-- All that there is to evaluate. -/
theorem leaf_evaluates :
    (References.resolveToEnd leafSources).isOk = true ∧
      (∀ before ∈ leafReferences.inits, (Compilation.ofUnits "L" [⟨"L.gen", leafLibrary⟩] before
        .referenceLibrary).image.toPack.isWritable = true) ∧
      (Compilation.ofUnits "M" leafUnits leafReferences .library).hasErrors = false := by
  decide +kernel

theorem resolve_leaf : References.resolve leafSources none = .ok (leafReferences, none) :=
  References.resolve_of_isOk leaf_evaluates.1

theorem writable_leaf : References.Writable leafSources leafReferences :=
  References.writable_single leaf_evaluates.2.1

/-- The library's method and the field of the module itself are found. -/
theorem static_linking_sound_leaf :
    References.resolve leafSources none = .ok (leafReferences, none) ∧
      References.Writable leafSources leafReferences ∧
      (Compilation.ofUnits "M" leafUnits leafReferences .library).hasErrors = false ∧
      ∃ h, Hierarchy.load (Compilation.ofUnits "M" leafUnits leafReferences .library).image
          leafReferences = .ok h ∧
        (∀ t ∈ (Compilation.ofUnits "M" leafUnits leafReferences .library).types, ∀ l ∈ t.links,
          h.holds h.mainIndex l) ∧ h.NeverMisses :=
  ⟨resolve_leaf, writable_leaf, leaf_evaluates.2.2,
    static_linking_sound resolve_leaf writable_leaf leaf_evaluates.2.2⟩

end GenLang
