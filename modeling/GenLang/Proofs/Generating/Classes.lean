import GenLang.Proofs.Linking.Contracts
import GenLang.Proofs.Linking.Units
import GenLang.Proofs.Syntax.Formatting

/-!
# The classes of generators

A module is compiled only if its source has no syntax errors and no two of its types share a name,
and a name is a word. So the generators found in a module are told apart by their classes, and the
name of a class holds no slash.
-/

namespace GenLang

open Grammar Parse Lowering

/-! ## Names of types -/

theorem not_mem_of_isWord {name : String} (h : IsWord name) : '/' ∉ name.toList := by
  obtain ⟨c, cs, htext, hc, hcs, -⟩ := h
  rw [htext, List.mem_cons]
  rintro (rfl | hmem)
  · cases hc
  · cases hcs _ hmem

theorem word_mem_of_isTypeDecl {ts : List Lexeme} {d : TypeDecl} (h : IsTypeDecl ts d) :
    word d.name ∈ ts := by
  cases h
  simp

theorem word_mem_of_isFile {ts : List Lexeme} {types : List TypeDecl} (h : IsFile ts types) :
    ∀ d ∈ types, word d.name ∈ ts := by
  induction h with
  | nil => exact fun d hd => absurd hd List.not_mem_nil
  | cons first _ ih =>
    intro d hd
    rcases List.mem_cons.1 hd with rfl | hd
    · exact List.mem_append_left _ (word_mem_of_isTypeDecl first)
    · exact List.mem_append_right _ (ih d hd)

/-- Types are named by words of their source. -/
theorem Parsed.isWord_of_ok {source : String} (h : (ofSource source).errors = []) :
    ∀ d ∈ (ofSource source).types, IsWord d.name.name := by
  intro d hd
  obtain ⟨-, hnone⟩ := ofLexemes_errors_eq_nil_iff.1 h
  have hfile := isFile_of_no_failures _ _ (Nat.lt_succ_self _) hnone
  have hmem := word_mem_of_isFile hfile d hd
  exact isWord_of_mem_lexemes (List.mem_filter.1 hmem).1 rfl

namespace Compilation

variable {name : String} {units : List SourceUnit} {references : List Image}
  {options : CompileOptions} (h : (ofUnits name units references options).hasErrors = false)

include h

/-- Nothing is compiled without errors that cannot be read. -/
theorem parsed_of_ok : ∀ u ∈ units, (Parsed.ofSource u.text).errors = [] := by
  intro u hu
  have hclean := isError_of_ok h
  simp only [ofUnits, List.forall_mem_append] at hclean
  have hnone : (parseUnits ⟨units⟩ units).2 = [] := parseUnits_of_clean hclean.1.1.1.1
  have hunit := List.flatMap_eq_nil_iff.1 hnone _ (List.mem_map_of_mem hu)
  exact List.map_eq_nil_iff.1 hunit

theorem isWord_typeName : ∀ t ∈ (ofUnits name units references options).types, IsWord t.name := by
  obtain ⟨ds, -, hlowered, -, hparsed⟩ := declarations_of_ok h
  intro t ht
  obtain ⟨d, hd, hlow⟩ := exists_of_forall₂_right hlowered ht
  obtain ⟨p, hp, hdecl⟩ := List.mem_flatMap.1 (hparsed d hd)
  obtain ⟨u, hu, rfl⟩ := List.mem_map.1 hp
  obtain ⟨decl, hmem, rfl⟩ := List.mem_map.1 hdecl
  rw [← hlow.shows.name]
  exact Parsed.isWord_of_ok (parsed_of_ok h u hu) decl hmem

theorem typeNames_nodup :
    ((ofUnits name units references options).types.map (·.name)).Nodup := by
  obtain ⟨ds, htypes, hlowered, -⟩ := declarations_of_ok h
  have hnodup := (ofUnits name units references options).model.symbols.nodup
  rw [htypes, List.map_append, List.map_map] at hnodup
  have hnames := map_eq_of_forall₂ (f := fun d => d.symbol.name) (g := TypeDef.name)
    (fun d t h => h.shows.name) hlowered
  rw [← hnames]
  exact (List.nodup_append.1 hnodup).2.1

end Compilation

/-! ## Generators -/

theorem Hierarchy.map_nameOf_classes {h : Hierarchy} :
    h.classes.map h.nameOf = h.main.types.map (·.name) := by
  have hdef (i : Nat) (hi : i < h.main.types.length) :
      h.nameOf ⟨h.mainIndex, i⟩ = h.main.types[i].name := by
    rw [nameOf, typeDef, module_mainIndex, List.getD_eq_getElem _ _ hi]
  rw [classes, List.map_map]
  apply List.ext_getElem
  · simp
  · intro i hi hi'
    simp [hdef i (by simpa using hi')]

namespace Generator

/-- Generators that their classes tell apart, none of which has a slash in its name. -/
structure Apart (gs : List Generator) : Prop where
  nodup : (gs.map (·.className)).Nodup
  slash : ∀ g ∈ gs, '/' ∉ g.className.toList

/-- A class is found at most once. -/
theorem classNames_sublist {image : Image} {libraries : References} {limits : Limits}
    {found : List Generator} (h : (discover image libraries limits).1 = .ok found) :
    (found.map (·.className)).Sublist (image.types.map (·.name)) := by
  unfold discover at h
  split at h
  · cases h
  · next hierarchy hload =>
    obtain rfl := Hierarchy.load_ok hload
    dsimp only at h
    split at h
    · cases h
    · split at h
      · cases h
      · cases h
        rw [List.map_map, ← Hierarchy.map_nameOf_classes (h := ⟨libraries, image⟩)]
        -- Of the classes some can generate, and of these some can be made.
        refine (List.filter_sublist.map _).trans ?_
        rw [List.map_map]
        exact List.filter_sublist.map _

end Generator

namespace GeneratorCompiler

/-- The generators of a source that was compiled. -/
theorem apart_of_build {s : GeneratorCompiler} {source : String} {libraries : References}
    {patience left : Patience} {found : List Generator}
    (hwritable : (s.module source libraries).image.toPack.isWritable = true)
    (h : (s.build source libraries patience).1 = .ok (found, left)) : Generator.Apart found := by
  obtain ⟨image, himage, hdiscover⟩ := of_build h
  obtain ⟨hok, hdecode⟩ := readBack_ok himage
  obtain rfl := Image.eq_of_decode hwritable hdecode
  have hsublist := Generator.classNames_sublist hdiscover
  refine ⟨hsublist.nodup (Compilation.typeNames_nodup hok), fun g hg => ?_⟩
  obtain ⟨t, ht, hname⟩ := List.mem_map.1 (hsublist.subset (List.mem_map_of_mem hg))
  rw [← hname]
  exact not_mem_of_isWord (Compilation.isWord_typeName hok t ht)

end GeneratorCompiler

end GenLang
