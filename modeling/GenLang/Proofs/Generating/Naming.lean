import GenLang.Proofs.Generating.Merging

/-!
# Names of generated units

A generator takes no hint twice, but a hint without an extension and the same hint with `.gen` name
the same file. These are the only two units that can share a name; where no generator uses both,
every name stands for one unit, and whoever looks for the text of a unit finds it.
-/

namespace GenLang

open NativeCode

/-! ## Hints that name one file -/

theorem mem_generatedFile (generator hint : String) :
    '/' ∈ (generatedFile generator hint).toList := by
  simp [generatedFile]

/-- An extension is added only to a hint that has none. -/
theorem generatedFile_eq_iff {generator x y : String} :
    generatedFile generator x = generatedFile generator y ↔
      x = y ∨ ('.' ∉ x.toList ∧ y = x ++ ".gen") ∨ ('.' ∉ y.toList ∧ x = y ++ ".gen") := by
  have hdot (s : String) : '.' ∈ (s ++ ".gen").toList := by simp
  rw [generatedFile, generatedFile, String.append_right_inj]
  simp only [List.contains_iff_mem]
  -- An extension is added only where there is no dot. So the cases are which of the two hints get
  -- one.
  by_cases hx : '.' ∈ x.toList
  · by_cases hy : '.' ∈ y.toList
    · simp [hx, hy]
    · rw [if_pos hx, if_neg hy]
      refine ⟨fun h => .inr (.inr ⟨hy, h⟩), ?_⟩
      rintro (rfl | ⟨hx', -⟩ | ⟨-, h⟩)
      · exact absurd hx hy
      · exact absurd hx hx'
      · exact h
  · by_cases hy : '.' ∈ y.toList
    · rw [if_neg hx, if_pos hy]
      refine ⟨fun h => .inr (.inl ⟨hx, h.symm⟩), ?_⟩
      rintro (rfl | ⟨-, h⟩ | ⟨hy', -⟩)
      · exact absurd hy hx
      · exact h.symm
      · exact absurd hy hy'
    · rw [if_neg hx, if_neg hy, String.append_left_inj]
      refine ⟨.inl, ?_⟩
      rintro (h | ⟨-, rfl⟩ | ⟨-, rfl⟩)
      · exact h
      -- a hint with the extension added has a dot, against the case
      · exact absurd (hdot x) hy
      · exact absurd (hdot y) hx

/-- Of two hints that name one file, one has an extension. -/
theorem eq_of_generatedFile {generator x y : String}
    (h : generatedFile generator x = generatedFile generator y)
    (hdot : '.' ∈ x.toList ↔ '.' ∈ y.toList) : x = y := by
  rcases generatedFile_eq_iff.1 h with h | ⟨hx, rfl⟩ | ⟨hy, rfl⟩
  · exact h
  · exact absurd (hdot.2 (by simp)) hx
  · exact absurd (hdot.1 (by simp)) hy

/-- No three hints name one file. -/
theorem count_generatedFile_le {hints : List String} (h : hints.Nodup) (generator name : String) :
    (hints.map (generatedFile generator)).count name ≤ 2 := by
  rw [List.count_eq_countP, List.countP_map, List.countP_eq_length_filter]
  have hnodup := h.filter ((· == name) ∘ generatedFile generator)
  have hname : ∀ x ∈ hints.filter ((· == name) ∘ generatedFile generator),
      generatedFile generator x = name := fun x hx => eq_of_beq (List.mem_filter.1 hx).2
  generalize hints.filter ((· == name) ∘ generatedFile generator) = same at hnodup hname
  rcases same with _ | ⟨x, _ | ⟨y, _ | ⟨z, rest⟩⟩⟩
  · simp
  · simp
  · simp
  -- Among three, two would both have an extension or both have none.
  · simp only [List.nodup_cons, List.mem_cons, not_or] at hnodup
    simp only [List.forall_mem_cons] at hname
    obtain ⟨⟨hxy, hxz, -⟩, ⟨hyz, -⟩, -⟩ := hnodup
    obtain ⟨hx, hy, hz, -⟩ := hname
    have hxy' := mt (eq_of_generatedFile (hx.trans hy.symm)) hxy
    have hxz' := mt (eq_of_generatedFile (hx.trans hz.symm)) hxz
    have hyz' := mt (eq_of_generatedFile (hy.trans hz.symm)) hyz
    tauto

/-- Hints name different files unless one of them is another with an extension. -/
theorem nodup_generatedFile_iff {hints : List String} (h : hints.Nodup) (generator : String) :
    (hints.map (generatedFile generator)).Nodup ↔
      ∀ hint ∈ hints, '.' ∉ hint.toList → hint ++ ".gen" ∉ hints := by
  rw [List.nodup_map_iff_inj_on h]
  constructor
  · intro hinj hint hmem hdot hmem'
    have heq := hinj hint hmem _ hmem' (generatedFile_eq_iff.2 (.inr (.inl ⟨hdot, rfl⟩)))
    rw [heq] at hdot
    exact hdot (by simp)
  · intro hapart x hx y hy hfile
    rcases generatedFile_eq_iff.1 hfile with h | ⟨hdot, rfl⟩ | ⟨hdot, rfl⟩
    · exact h
    · exact absurd hy (hapart x hx hdot)
    · exact absurd hx (hapart y hy hdot)

/-! ## Units of all generators -/

/-- Pieces of which at most one is not empty are together no longer than one of them. -/
theorem length_flatMap_le {α β : Type} {f : α → List β} {n : Nat} {as : List α} (hnodup : as.Nodup)
    (h : ∀ a ∈ as, ∀ b ∈ as, f a ≠ [] → f b ≠ [] → a = b) (hle : ∀ a ∈ as, (f a).length ≤ n) :
    (as.flatMap f).length ≤ n := by
  induction as with
  | nil => exact Nat.zero_le n
  | cons a as ih =>
    obtain ⟨hnew, hnodup⟩ := List.nodup_cons.1 hnodup
    rw [List.flatMap_cons]
    by_cases ha : f a = []
    · rw [ha, List.nil_append]
      exact ih hnodup
        (fun b hb c hc => h b (List.mem_cons_of_mem a hb) c (List.mem_cons_of_mem a hc))
        fun b hb => hle b (List.mem_cons_of_mem a hb)
    · have hrest : as.flatMap f = [] := by
        rw [List.flatMap_eq_nil_iff]
        intro b hb
        by_contra hne
        have heq := h a List.mem_cons_self b (List.mem_cons_of_mem a hb) ha hne
        exact hnew (heq ▸ hb)
      rw [hrest, List.append_nil]
      exact hle a List.mem_cons_self

namespace Generator

/-- The names of what generators generate, one generator after the other. -/
def fileNames (gs : List Generator) (model : SemanticModel) : List String :=
  gs.flatMap fun g => (g.hints model).map (generatedFile g.className)

theorem hints_nodup (g : Generator) (model : SemanticModel) : (g.hints model).Nodup := by
  obtain ⟨-, -, -, hnodup⟩ := g.execute_delivers model
  exact hnodup

namespace Apart

variable {gs : List Generator} (h : Apart gs) (model : SemanticModel)

include h

theorem count_fileNames_le (name : String) : (fileNames gs model).count name ≤ 2 := by
  rw [fileNames, List.count_eq_countP, List.countP_eq_length_filter, List.filter_flatMap]
  apply length_flatMap_le h.nodup.of_map
  · intro g hg g' hg' hne hne'
    obtain ⟨file, hfile⟩ := List.exists_mem_of_ne_nil _ hne
    obtain ⟨file', hfile'⟩ := List.exists_mem_of_ne_nil _ hne'
    obtain ⟨hmem, hname⟩ := List.mem_filter.1 hfile
    obtain ⟨hmem', hname'⟩ := List.mem_filter.1 hfile'
    obtain ⟨hint, -, rfl⟩ := List.mem_map.1 hmem
    obtain ⟨hint', -, rfl⟩ := List.mem_map.1 hmem'
    exact h.eq_of_name hg hg' ((eq_of_beq hname).trans (eq_of_beq hname').symm)
  · intro g _
    rw [← List.countP_eq_length_filter, ← List.count_eq_countP]
    exact count_generatedFile_le (g.hints_nodup model) g.className name

theorem fileNames_nodup_iff : (fileNames gs model).Nodup ↔
    ∀ g ∈ gs, ∀ hint ∈ g.hints model, '.' ∉ hint.toList → hint ++ ".gen" ∉ g.hints model := by
  rw [fileNames, List.nodup_flatMap, and_iff_left]
  · exact forall₂_congr fun g _ => nodup_generatedFile_iff (g.hints_nodup model) g.className
  -- Different generators never use one name.
  · refine (List.pairwise_map.1 h.nodup).imp_of_mem fun {g g'} hg hg' hne => ?_
    intro file hfile hfile'
    obtain ⟨hint, -, rfl⟩ := List.mem_map.1 hfile
    obtain ⟨hint', -, hname⟩ := List.mem_map.1 hfile'
    exact hne (congrArg className (h.eq_of_name hg hg' hname.symm))

end Apart

end Generator

/-! ## Texts by name -/

namespace Sources

variable {units more : List SourceUnit}

/-- Units behind others are found first. -/
theorem text?_append_of_mem (hnodup : (more.map (·.name)).Nodup) {u : SourceUnit} (hu : u ∈ more) :
    text? ⟨units ++ more⟩ u.name = some u.text := by
  have hreversed : (more.reverse.map (·.name)).Nodup := by
    rw [List.map_reverse]
    exact List.nodup_reverse.2 hnodup
  have hfind := find?_of_nodup hreversed (List.mem_reverse.2 hu)
  rw [text?, List.reverse_append, List.find?_append, hfind]
  rfl

/-- Units of other names are passed over. -/
theorem text?_append_of_ne {file : String} (h : ∀ u ∈ more, u.name ≠ file) :
    text? ⟨units ++ more⟩ file = text? ⟨units⟩ file := by
  have hnone : more.reverse.find? (·.name == file) = none := by
    rw [List.find?_eq_none]
    intro u hu
    simpa using h u (List.mem_reverse.1 hu)
  rw [text?, text?, List.reverse_append, List.find?_append, hnone, Option.none_or]

end Sources

namespace Transformation

variable {gs : List Generator}

theorem names_perm (program : Compilation) (gs : List Generator) :
    ((uncancelled program gs).generated.map (·.name)).Perm
      (Generator.fileNames gs program.model) := by
  have hperm := (perm_sortUnits
    (gs.flatMap fun g => (g.delivery program.model).sources)).map SourceUnit.name
  rw [List.map_flatMap] at hperm
  simp only [Generator.names_delivery] at hperm
  exact hperm

theorem units_of_augmented {program c : Compilation}
    (h : (uncancelled program gs).augmented = some c) :
    c.units = program.units ++ (uncancelled program gs).generated := by
  rw [augmented_uncancelled] at h
  split at h
  · cases h
  · cases h
    rfl

/-- What the generators of a source, whose module the format has room for, generate for a program is
named by their classes and hints. No three units share a name, and no two do exactly if no generator
uses a hint without an extension and the same hint with `.gen`. Then the program with the generated
units knows the right text for the name of each unit, if the names of the program are such that no
generator could use them. -/
theorem generated_names {s : GeneratorCompiler} {source : String} {libraries : References}
    {patience left : Patience}
    (hwritable : (s.module source libraries).image.toPack.isWritable = true)
    (hbuild : (s.build source libraries patience).1 = .ok (gs, left)) (parallel : Bool)
    (program : Compilation) :
    ∃ t, (run parallel program gs {}).1 = .ok (t, none) ∧
      (t.generated.map (·.name)).Perm
        (gs.flatMap fun g => (g.hints program.model).map (generatedFile g.className)) ∧
      (∀ name, (t.generated.map (·.name)).count name ≤ 2) ∧
      ((t.generated.map (·.name)).Nodup ↔ ∀ g ∈ gs, ∀ hint ∈ g.hints program.model,
        '.' ∉ hint.toList → hint ++ ".gen" ∉ g.hints program.model) ∧
      ((t.generated.map (·.name)).Nodup → ∀ c ∈ t.augmented,
        (∀ u ∈ t.generated, (Sources.mk c.units).text? u.name = some u.text) ∧
        ((program.units.map (·.name)).Nodup → (∀ u ∈ program.units, '/' ∉ u.name.toList) →
          ∀ u ∈ program.units, (Sources.mk c.units).text? u.name = some u.text)) := by
  have hapart := GeneratorCompiler.apart_of_build hwritable hbuild
  have hperm := names_perm program gs
  refine ⟨_, run_eq_uncancelled parallel program gs, hperm, fun name => ?_, ?_,
    fun hnodup c hc => ?_⟩
  · rw [hperm.count_eq]
    exact hapart.count_fileNames_le program.model name
  · rw [hperm.nodup_iff]
    exact hapart.fileNames_nodup_iff program.model
  · rw [units_of_augmented hc]
    refine ⟨fun u hu => Sources.text?_append_of_mem hnodup hu, fun hprogram hslash u hu => ?_⟩
    rw [Sources.text?_append_of_ne]
    · exact @Sources.text?_append_of_mem [] _ hprogram u hu
    · intro v hv hname
      -- A generated name holds a slash.
      obtain ⟨g, -, hfile⟩ := List.mem_flatMap.1 (hperm.subset (List.mem_map_of_mem hv))
      obtain ⟨hint, -, heq⟩ := List.mem_map.1 hfile
      have hmem := mem_generatedFile g.className hint
      rw [heq, hname] at hmem
      exact hslash u hu hmem

/-- Each of the twins uses a hint and the same hint with `.gen`. -/
theorem generated_names_twins :
    ∃ gs, (contractCompiler.build twinSource contractReferences none).1 = .ok (gs, none) ∧
      gs.map (·.delivery twinProgram.model) = [twinOutput "A", twinOutput "B"] ∧
      ∃ t, (run true twinProgram gs {}).1 = .ok (t, none) ∧
        (t.generated.map (·.name)).Perm (gs.flatMap fun g =>
          (g.hints twinProgram.model).map (generatedFile g.className)) ∧
        (∀ name, (t.generated.map (·.name)).count name ≤ 2) ∧
        ((t.generated.map (·.name)).Nodup ↔ ∀ g ∈ gs, ∀ hint ∈ g.hints twinProgram.model,
          '.' ∉ hint.toList → hint ++ ".gen" ∉ g.hints twinProgram.model) := by
  obtain ⟨gs, hbuild, hgs⟩ := twin_builds
  obtain ⟨t, hrun, hperm, hcount, hnodup, -⟩ :=
    generated_names twin_evaluates.1 hbuild true twinProgram
  exact ⟨gs, hbuild, hgs, t, hrun, hperm, hcount, hnodup⟩

/-- So units that were generated share a name, and whoever looks for the text of one finds that of
another. -/
theorem generated_names_repeat :
    ∃ gs, (contractCompiler.build twinSource contractReferences none).1 = .ok (gs, none) ∧
      ∃ t, (run true twinProgram gs {}).1 = .ok (t, none) ∧ ¬ (t.generated.map (·.name)).Nodup ∧
        ∃ c ∈ t.augmented, ∃ u ∈ t.generated,
          (Sources.mk c.units).text? u.name ≠ some u.text := by
  obtain ⟨gs, hbuild, hgs⟩ := twin_builds
  have hperm : (uncancelled twinProgram gs).generated.Perm
      ([twinOutput "A", twinOutput "B"].flatMap (·.sources)) := by
    have hsources := congrArg (List.flatMap GeneratorOutput.sources) hgs
    rw [List.flatMap_map] at hsources
    exact (perm_sortUnits _).trans (.of_eq hsources)
  have hdiagnostics : (uncancelled twinProgram gs).diagnostics = [] := by
    have h := congrArg (List.flatMap GeneratorOutput.diagnostics) hgs
    rwa [List.flatMap_map] at h
  refine ⟨gs, hbuild, _, run_eq_uncancelled true twinProgram gs, ?_, ?_⟩
  · rw [(hperm.map _).nodup_iff]
    decide
  · have hfirst : ⟨"A/X.gen", "type P {}"⟩ ∈ (uncancelled twinProgram gs).generated :=
      hperm.mem_iff.2 (by decide)
    have hsecond : ⟨"A/X.gen", ""⟩ ∈ (uncancelled twinProgram gs).generated :=
      hperm.mem_iff.2 (by decide)
    rw [augmented_uncancelled, hdiagnostics]
    refine ⟨_, rfl, ?_⟩
    -- There is only one text that is found.
    by_cases htext : (Sources.mk (twinProgram.units ++
        (uncancelled twinProgram gs).generated)).text? "A/X.gen" = some ""
    · exact ⟨_, hfirst, fun h => absurd (htext.symm.trans h) (by decide)⟩
    · exact ⟨_, hsecond, htext⟩

end Transformation

end GenLang
