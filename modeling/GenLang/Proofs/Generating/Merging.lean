import GenLang.Proofs.Generating.Classes
import GenLang.Proofs.Running.Delivery
import GenLang.Proofs.Syntax.Errors
import GenLang.Transformation

/-!
# Putting deliveries together

The units of all generators are sorted by name, and those of one name stay in the order in which
they were delivered. Names begin with the class of their generator, so units that share a name are
of one generator, and the order of the generators does not matter.
-/

namespace GenLang

open NativeCode

/-! ## Deliveries -/

namespace Generator

/-- What a generator delivers for a program if nobody cancels it. -/
def delivery (g : Generator) (model : SemanticModel) : GeneratorOutput :=
  ((g.execute model none).1.toOption.map (·.1)).getD {}

theorem execute_eq_delivery (g : Generator) (model : SemanticModel) :
    (g.execute model none).1 = .ok (g.delivery model, none) := by
  obtain ⟨output, hrun, -⟩ := g.execute_delivers model
  rw [delivery, hrun]
  rfl

/-- The sources of a generator are named by its hints. -/
theorem names_delivery (g : Generator) (model : SemanticModel) :
    (g.delivery model).sources.map (·.name) =
      (g.hints model).map (generatedFile g.className) := by
  obtain ⟨output, hrun, hnames, -⟩ := g.execute_delivers model
  rw [execute_eq_delivery] at hrun
  cases hrun
  exact hnames

end Generator

namespace Transformation

/-- Whether generators run beside each other does not matter if nobody cancels them. -/
theorem executeAll_eq (model : SemanticModel) (parallel : Bool) (gs : List Generator) :
    (executeAll model parallel gs {}).1 = .ok (gs.map (·.delivery model), none) := by
  induction gs with
  | nil => rfl
  | cons g gs ih =>
    have hexecute := g.execute_eq_delivery model
    rw [executeAll, Cancellation.next_never]
    generalize g.execute model none = result at hexecute ⊢
    obtain ⟨output, log⟩ := result
    obtain rfl : output = .ok (g.delivery model, none) := hexecute
    dsimp only
    rw [Cancellation.after_never, ih]
    rfl

/-- Nothing stops a transformation that is not cancelled. -/
def uncancelled (program : Compilation) (gs : List Generator) : Transformation :=
  let generated := sortUnits (gs.flatMap fun g => (g.delivery program.model).sources)
  let diagnostics := gs.flatMap fun g => (g.delivery program.model).diagnostics
  { generated, diagnostics
    augmented :=
      if diagnostics.any (·.isError) then none
      else
        some (.ofUnits program.name (program.units ++ generated) program.references .executable) }

theorem augmented_uncancelled (program : Compilation) (gs : List Generator) :
    (uncancelled program gs).augmented =
      if (uncancelled program gs).diagnostics.any (·.isError) then none
      else some (.ofUnits program.name (program.units ++ (uncancelled program gs).generated)
        program.references .executable) :=
  rfl

theorem run_eq_uncancelled (parallel : Bool) (program : Compilation) (gs : List Generator) :
    (run parallel program gs {}).1 = .ok (uncancelled program gs, none) := by
  unfold run uncancelled
  dsimp only
  rw [executeAll_eq]
  show ofOutputs program (gs.map (·.delivery program.model)) none = _
  unfold ofOutputs
  rw [List.flatMap_map, List.flatMap_map]
  dsimp only
  split
  · rfl
  · rw [Compilation.withUnits, Compilation.create_never]
    rfl

/-! ## Units by name -/

theorem perm_sortUnits (units : List SourceUnit) : (sortUnits units).Perm units :=
  List.mergeSort_perm _ _

theorem sorted_sortUnits (units : List SourceUnit) :
    (sortUnits units).Pairwise fun a b => a.name ≤ b.name :=
  pairwise_mergeSort_key SourceUnit.name units

/-- Units of one name keep their order. -/
theorem filter_sortUnits (units : List SourceUnit) (name : String) :
    (sortUnits units).filter (·.name == name) = units.filter (·.name == name) := by
  have htied : (units.filter (·.name == name)).Pairwise
      fun a b => (!decide (b.name < a.name)) = true := by
    refine List.pairwise_of_forall_mem_list fun a ha b hb => (before_iff SourceUnit.name).2 ?_
    have hname : a.name = b.name :=
      (eq_of_beq (List.mem_filter.1 ha).2).trans (eq_of_beq (List.mem_filter.1 hb).2).symm
    exact hname ▸ String.le_refl _
  exact filter_mergeSort (before_trans SourceUnit.name) (before_total SourceUnit.name) htied

/-- Sorted units are told by what there is of each name. -/
theorem eq_of_filter_eq {units units' : List SourceUnit}
    (h : units.Pairwise fun a b => a.name ≤ b.name)
    (h' : units'.Pairwise fun a b => a.name ≤ b.name)
    (heq : ∀ name, units.filter (·.name == name) = units'.filter (·.name == name)) :
    units = units' := by
  have hmem {us us' : List SourceUnit}
      (heq : ∀ name, us.filter (·.name == name) = us'.filter (·.name == name)) {u : SourceUnit}
      (hu : u ∈ us) : u ∈ us' := by
    have : u ∈ us.filter (·.name == u.name) := List.mem_filter.2 ⟨hu, beq_self_eq_true _⟩
    rw [heq] at this
    exact (List.mem_filter.1 this).1
  induction units generalizing units' with
  | nil =>
    cases units' with
    | nil => rfl
    | cons u us => exact absurd (hmem (fun name => (heq name).symm) List.mem_cons_self) (by simp)
  | cons u us ih =>
    cases units' with
    | nil => exact absurd (hmem heq List.mem_cons_self) (by simp)
    | cons v vs =>
      obtain ⟨hu, hus⟩ := List.pairwise_cons.1 h
      obtain ⟨hv, hvs⟩ := List.pairwise_cons.1 h'
      -- Each of the first names is the least of both lists.
      have hname : u.name = v.name := by
        apply String.le_antisymm
        · have hv := hmem (fun name => (heq name).symm) List.mem_cons_self
          rcases List.mem_cons.1 hv with he | hm
          · exact he ▸ String.le_refl _
          · exact hu v hm
        · rcases List.mem_cons.1 (hmem heq List.mem_cons_self) with he | hm
          · exact he ▸ String.le_refl _
          · exact hv u hm
      have hfirst := heq v.name
      rw [List.filter_cons, List.filter_cons, if_pos (beq_iff_eq.2 hname),
        if_pos (beq_self_eq_true v.name)] at hfirst
      obtain ⟨rfl, -⟩ := List.cons.inj hfirst
      rw [ih hus hvs fun name => ?_]
      have hrest := heq name
      rw [List.filter_cons, List.filter_cons] at hrest
      split at hrest
      · exact (List.cons.inj hrest).2
      · exact hrest

/-- The order in which units are put together does not matter as long as those of one name keep
theirs. -/
theorem sortUnits_congr {units units' : List SourceUnit}
    (h : ∀ name, units.filter (·.name == name) = units'.filter (·.name == name)) :
    sortUnits units = sortUnits units' := by
  apply eq_of_filter_eq (sorted_sortUnits units) (sorted_sortUnits units')
  intro name
  rw [filter_sortUnits, filter_sortUnits, h]

end Transformation

/-! ## Names of different generators -/

theorem takeWhile_generatedFile {generator : String} (h : '/' ∉ generator.toList) (hint : String) :
    (generatedFile generator hint).toList.takeWhile (· != '/') = generator.toList := by
  have hall : ∀ c ∈ generator.toList, (c != '/') = true := fun c hc =>
    bne_iff_ne.2 fun he => h (he ▸ hc)
  rw [generatedFile, String.toList_append, String.toList_append, List.append_assoc,
    List.takeWhile_append_of_pos hall]
  simp

namespace Generator

variable {gs gs' : List Generator}

/-- A name tells which generator has generated a unit. -/
theorem Apart.eq_of_name (h : Apart gs) {g g' : Generator} (hg : g ∈ gs) (hg' : g' ∈ gs)
    {hint hint' : String}
    (hname : generatedFile g.className hint = generatedFile g'.className hint') : g = g' := by
  apply List.inj_on_of_nodup_map h.nodup hg hg'
  rw [← String.toList_inj, ← takeWhile_generatedFile (h.slash g hg) hint, hname,
    takeWhile_generatedFile (h.slash g' hg')]

theorem Apart.eq_of_mem (h : Apart gs) {g g' : Generator} (hg : g ∈ gs) (hg' : g' ∈ gs)
    {model : SemanticModel} {u v : SourceUnit} (hu : u ∈ (g.delivery model).sources)
    (hv : v ∈ (g'.delivery model).sources) (hname : u.name = v.name) : g = g' := by
  have hu' := List.mem_map_of_mem (f := SourceUnit.name) hu
  have hv' := List.mem_map_of_mem (f := SourceUnit.name) hv
  rw [names_delivery] at hu' hv'
  obtain ⟨hint, -, heq⟩ := List.mem_map.1 hu'
  obtain ⟨hint', -, heq'⟩ := List.mem_map.1 hv'
  exact h.eq_of_name hg hg' (heq.trans (hname.trans heq'.symm))

end Generator

/-- Pieces that are put together in another order are the same, if at most one is not empty. -/
theorem flatMap_eq_of_perm {α β : Type} {f : α → List β} {as bs : List α} (hperm : as.Perm bs)
    (h : ∀ a ∈ as, ∀ b ∈ as, f a ≠ [] → f b ≠ [] → a = b) : as.flatMap f = bs.flatMap f := by
  induction hperm with
  | nil => rfl
  | cons a _ ih =>
    rw [List.flatMap_cons, List.flatMap_cons, ih fun b hb c hc =>
      h b (List.mem_cons_of_mem a hb) c (List.mem_cons_of_mem a hc)]
  | swap a b as =>
    have hpair := h b (by simp) a (by simp)
    simp only [List.flatMap_cons]
    -- One of two different neighbours has no part in the result.
    by_cases hb : f b = []
    · rw [hb, List.nil_append, List.nil_append]
    · by_cases ha : f a = []
      · rw [ha, List.nil_append, List.nil_append]
      · rw [hpair hb ha]
  | trans hab _ ih ih' =>
    rw [ih h, ih' fun a ha b hb => h a (hab.mem_iff.2 ha) b (hab.mem_iff.2 hb)]

namespace Transformation

variable {gs gs' : List Generator}

theorem generated_perm (h : Generator.Apart gs) (hperm : gs'.Perm gs) (program : Compilation) :
    (uncancelled program gs').generated = (uncancelled program gs).generated := by
  apply sortUnits_congr
  intro name
  rw [List.filter_flatMap, List.filter_flatMap]
  -- Only one of the generators has units of this name, so there is nothing to change places with.
  apply flatMap_eq_of_perm hperm
  intro g hg g' hg' hne hne'
  obtain ⟨u, hu⟩ := List.exists_mem_of_ne_nil _ hne
  obtain ⟨v, hv⟩ := List.exists_mem_of_ne_nil _ hne'
  obtain ⟨hmem, hname⟩ := List.mem_filter.1 hu
  obtain ⟨hmem', hname'⟩ := List.mem_filter.1 hv
  exact h.eq_of_mem (hperm.mem_iff.1 hg) (hperm.mem_iff.1 hg') hmem hmem'
    ((eq_of_beq hname).trans (eq_of_beq hname').symm)

theorem diagnostics_perm (hperm : gs'.Perm gs) (program : Compilation) :
    (uncancelled program gs').diagnostics.Perm (uncancelled program gs).diagnostics :=
  hperm.flatMap_right _

theorem augmented_perm (h : Generator.Apart gs) (hperm : gs'.Perm gs) (program : Compilation) :
    (uncancelled program gs').augmented = (uncancelled program gs).augmented := by
  have hgenerated := generated_perm h hperm program
  have hany : (uncancelled program gs').diagnostics.any (·.isError) =
      (uncancelled program gs).diagnostics.any (·.isError) :=
    (diagnostics_perm hperm program).any_eq
  rw [augmented_uncancelled, augmented_uncancelled, hgenerated, hany]

/-- The generators of a source, whose module the format has room for, may run on a program in any
order, beside each other or not: the same units are generated in the same order, listed alike and
compiled with the program to the same, or not compiled in either case, and the same is reported, in
another order. -/
theorem run_perm {s : GeneratorCompiler} {source : String} {libraries : References}
    {patience left : Patience}
    (hwritable : (s.module source libraries).image.toPack.isWritable = true)
    (hbuild : (s.build source libraries patience).1 = .ok (gs, left)) (hperm : gs'.Perm gs)
    (parallel parallel' : Bool) (program : Compilation) :
    ∃ t t', (run parallel program gs {}).1 = .ok (t, none) ∧
      (run parallel' program gs' {}).1 = .ok (t', none) ∧
      t'.generated = t.generated ∧ t'.report = t.report ∧ t'.augmented = t.augmented ∧
      t'.diagnostics.Perm t.diagnostics := by
  have hapart := GeneratorCompiler.apart_of_build hwritable hbuild
  have hgenerated := generated_perm hapart hperm program
  refine ⟨_, _, run_eq_uncancelled parallel program gs, run_eq_uncancelled parallel' program gs',
    hgenerated, ?_, augmented_perm hapart hperm program, diagnostics_perm hperm program⟩
  rw [report, report, hgenerated]

end Transformation

/-! ## Twins -/

/-- Two generators that use the same two hints, of which one is the other with an extension. -/
def twinSource : String :=
  "type A : Generator \x7b fn Execute(c) \x7b c.AddSource(\"X\", \"type P \x7b\x7d\"); c.AddSource(\"X.gen\", \"\"); \x7d \x7d
type B : A \x7b\x7d"

def twinProgram : Compilation :=
  .ofUnits "Program" [⟨"Program.gen", "type Program { static fn Main() {} }"⟩] contractReferences
    .executable

deriving instance DecidableEq for GeneratorOutput

/-- What one of the twins delivers. -/
def twinOutput (generator : String) : GeneratorOutput where
  sources := [⟨generator ++ "/X.gen", "type P {}"⟩, ⟨generator ++ "/X.gen", ""⟩]

theorem twin_evaluates :
    (contractCompiler.module twinSource contractReferences).image.toPack.isWritable = true ∧
      ((contractCompiler.build twinSource contractReferences none).1.map fun built =>
          built.1.map (·.delivery twinProgram.model)).toOption =
        some [twinOutput "A", twinOutput "B"] := by
  decide +kernel

theorem twin_builds : ∃ gs,
    (contractCompiler.build twinSource contractReferences none).1 = .ok (gs, none) ∧
      gs.map (·.delivery twinProgram.model) = [twinOutput "A", twinOutput "B"] := by
  have hevaluates := twin_evaluates.2
  cases hbuild : (contractCompiler.build twinSource contractReferences none).1 with
  | ok built =>
    obtain ⟨gs, left⟩ := built
    have hnever := GeneratorCompiler.build_never hbuild
    rw [hbuild] at hevaluates hnever
    cases hnever
    exact ⟨gs, rfl, Option.some.inj hevaluates⟩
  | error e =>
    rw [hbuild] at hevaluates
    cases hevaluates

namespace Transformation

/-- The units of a name stay in order though the generators change places. -/
theorem run_perm_twins :
    ∃ gs, (contractCompiler.build twinSource contractReferences none).1 = .ok (gs, none) ∧
      gs.map (·.delivery twinProgram.model) = [twinOutput "A", twinOutput "B"] ∧
      ∃ t t', (run false twinProgram gs {}).1 = .ok (t, none) ∧
        (run true twinProgram gs.reverse {}).1 = .ok (t', none) ∧ t'.generated = t.generated ∧
        t'.report = t.report ∧ t'.augmented = t.augmented ∧
        t'.diagnostics.Perm t.diagnostics := by
  obtain ⟨gs, hbuild, hgs⟩ := twin_builds
  exact ⟨gs, hbuild, hgs, run_perm twin_evaluates.1 hbuild gs.reverse_perm false true twinProgram⟩

end Transformation

end GenLang
