import GenLang.Proofs.Running.Watched

/-!
# The limit of calls

A method is called below the limit of calls only, so that its statements run within the limit.
Initialisers of fields are not calls: their frames come on top of whatever is in progress, and
where no class has an initialiser the limit is one of all frames.
-/

namespace GenLang

/-- Whether a frame may be that of an initialiser, of an object's field or a static one: there is a
type of its name that has a field with an initialiser. -/
def Hierarchy.initialises (h : Hierarchy) (f : StackFrame) : Bool :=
  (f.method == "init" || f.method == ".cctor") &&
    h.types.any fun t => t.name == f.typeName && t.fields.any (·.init.isSome)

/-- Whether calls, the innermost first, are within the limit up to initialisers. -/
def Environment.bounds (env : Environment) (trace : List StackFrame) : Bool :=
  (trace.take (trace.length - env.maxCallDepth)).all env.hierarchy.initialises

namespace Watch

/-- Watches for a statement that runs beyond the limit of calls, and for other frames than those of
initialisers there, in progress or in a trace. -/
def depth : Watch where
  eval env _ m := env.bounds (m.frames.map (·.toStackFrame))
  exec env m := m.frames.length ≤ env.maxCallDepth
  display env m := env.bounds (m.frames.map (·.toStackFrame))
  value _ _ _ := true
  stop env _ e :=
    match e with
    | .thrown _ info => env.bounds info.trace
    | .cancelled | .outOfFuel => true

/-- Watches for any frame beyond the limit of calls, in progress or in a trace. -/
def shallow : Watch where
  eval env _ m := m.frames.length ≤ env.maxCallDepth
  exec env m := m.frames.length ≤ env.maxCallDepth
  display env m := m.frames.length ≤ env.maxCallDepth
  value _ _ _ := true
  stop env _ e :=
    match e with
    | .thrown _ info => info.trace.length ≤ env.maxCallDepth
    | .cancelled | .outOfFuel => true

end Watch

variable {env : Environment}

/-- The frame of an initialiser is taken for one. -/
theorem Frame.Serves.initialises {cs : List ClassId} {f : Frame} {a : Activation}
    (hf : f.Serves env.hierarchy cs a) (ha : a.initialising.isSome) :
    env.hierarchy.initialises f.toStackFrame := by
  obtain ⟨field, hfield⟩ := Option.isSome_iff_exists.1 ha
  obtain ⟨hmem, hinit, hmethod⟩ := hf.initialising field hfield
  rw [Hierarchy.initialises, Bool.and_eq_true, Bool.or_eq_true, beq_iff_eq, beq_iff_eq]
  refine ⟨hmethod, List.any_eq_true.2 ⟨env.hierarchy.typeDef a.cls, ?_, ?_⟩⟩
  · exact Hierarchy.typeDef_mem_types hf.declared
  · rw [Bool.and_eq_true, beq_iff_eq]
    exact ⟨hf.typeName.symm, List.any_eq_true.2 ⟨field, hmem, hinit⟩⟩

/-- Calls in progress are within the limit up to initialisers, as their activations are. -/
theorem Activation.Bounded.bounds {cs : List ClassId} {frames : List Frame}
    {as : List Activation} (has : Activation.Bounded env.maxCallDepth as)
    (hframes : List.Forall₂ (Frame.Serves env.hierarchy cs) frames as) :
    env.bounds (frames.map (·.toStackFrame)) := by
  rw [Environment.bounds, List.length_map, hframes.length_eq, ← List.map_take, List.all_map,
    List.all_eq_true]
  -- Frames beyond the limit belong to activations beyond the limit.
  have htake := List.forall₂_take (as.length - env.maxCallDepth) hframes
  intro f hf
  obtain ⟨i, hi, rfl⟩ := List.getElem_of_mem hf
  have hi' : i < (as.take (as.length - env.maxCallDepth)).length := htake.length_eq ▸ hi
  have hserves := htake.get hi hi'
  exact hserves.initialises (has _ (List.getElem_mem hi'))

theorem Environment.Traces.bounds {trace : List StackFrame} (h : env.Traces trace) :
    env.bounds trace := by
  obtain ⟨cs, frames, as, hframes, has, rfl⟩ := h
  exact has.bounds hframes

theorem Watch.accepts_depth : Watch.depth.Accepts env where
  eval := fun _ hm => hm.bounded.bounds hm.frames
  exec := by
    intro as m hm has
    exact decide_eq_true (hm.frames.length_eq ▸ has)
  display := fun hm => hm.bounded.bounds hm.frames
  value := fun _ _ => rfl
  stop := by
    intro as m e _ he
    cases he with
    | thrown _ htrace => exact htrace.bounds
    | cancelled | outOfFuel => rfl

/-! ## Without initialisers -/

section

variable (hplain : ∀ t ∈ env.hierarchy.types, ∀ f ∈ t.fields, f.init = none)

include hplain

/-- Without initialisers there is nothing beyond the limit. -/
theorem Environment.length_of_bounds {calls : List StackFrame} (h : env.bounds calls) :
    calls.length ≤ env.maxCallDepth := by
  by_contra hlt
  rw [bounds, List.all_eq_true] at h
  have hmem : calls[0] ∈ calls.take (calls.length - env.maxCallDepth) :=
    List.mem_take_iff_getElem.2 ⟨0, by omega, rfl⟩
  have hinitialises := h _ hmem
  rw [Hierarchy.initialises, Bool.and_eq_true] at hinitialises
  obtain ⟨t, ht, hfields⟩ := List.any_eq_true.1 hinitialises.2
  obtain ⟨f, hf, hinit⟩ := List.any_eq_true.1 (Bool.and_eq_true_iff.1 hfields).2
  rw [hplain t ht f hf] at hinit
  cases hinit

theorem Machine.Sound.shallow {as : List Activation} {m : Machine} (hm : m.Sound env as) :
    m.frames.length ≤ env.maxCallDepth := by
  have hlength := Environment.length_of_bounds hplain (hm.bounded.bounds hm.frames)
  rwa [List.length_map] at hlength

theorem Watch.accepts_shallow : Watch.shallow.Accepts env where
  eval := fun _ hm => decide_eq_true (hm.shallow hplain)
  exec := fun hm _ => decide_eq_true (hm.shallow hplain)
  display := fun hm => decide_eq_true (hm.shallow hplain)
  value := fun _ _ => rfl
  stop := by
    intro as m e _ he
    cases he with
    | thrown _ htrace => exact decide_eq_true (Environment.length_of_bounds hplain htrace.bounds)
    | cancelled | outOfFuel => rfl

end

namespace Evaluator

/-- In every run asked of an interpreter, statements run within the limit of calls only, and at
every expression whose value is asked for, and in every trace, frames beyond the limit are those of
initialisers. Where no class has an initialiser, there never is a frame beyond the limit, nor in a
trace. -/
theorem depth_bounded (n : Nat) (ending : Stop) {m : Machine} (hm : m.Between env) :
    ((Watch.depth.over ending .plain).ofFuel n).RunsAs (ofFuel n) env m ∧
    ((∀ t ∈ env.hierarchy.types, ∀ f ∈ t.fields, f.init = none) →
      ((Watch.shallow.over ending .plain).ofFuel n).RunsAs (ofFuel n) env m) := by
  have hplain : Interpretation.plain.Conform env := Interpretation.conform_plain
  refine ⟨(Watch.accepts_depth.conform ending hplain).runsAs n hm, fun hnone => ?_⟩
  exact ((Watch.accepts_shallow hnone).conform ending hplain).runsAs n hm

/-- A class with a method that calls itself. -/
def endless : TypeDef :=
  { (default : TypeDef) with
    name := "Endless", file := "M.gen"
    methods := [{ (default : MethodDef) with
      name := "Go", isStatic := true, line := 1
      body := some [.expr 2 (.staticCall ⟨none, "Endless"⟩ "Go" [])] }] }

def endlessEnvironment : Environment :=
  { hierarchy := ⟨[], { (default : Image) with types := [endless] }⟩, maxCallDepth := 2 }

/-- The third call is refused, with a trace of the two in progress. -/
theorem depth_bounded_endless :
    (∀ t ∈ endlessEnvironment.hierarchy.types, ∀ f ∈ t.fields, f.init = none) ∧
      ((Watch.shallow.over .cancelled .plain).ofFuel 16).callStatic ⟨0, 0⟩ "Go" []
          endlessEnvironment {} =
        .error (.thrown (.str "Operation caused a stack overflow.")
          ⟨"StackOverflowException", "Operation caused a stack overflow.",
            [⟨"Endless", "Go", "M.gen", 2⟩, ⟨"Endless", "Go", "M.gen", 2⟩]⟩) {} := by
  have hplain : ∀ t ∈ endlessEnvironment.hierarchy.types, ∀ f ∈ t.fields, f.init = none := by
    intro t ht f hf
    obtain rfl := List.mem_singleton.1 ht
    exact absurd hf List.not_mem_nil
  have hfresh : Machine.Between endlessEnvironment {} := .fresh (.text "") none {} []
  have hargs : Value.AllKnown [] [] := fun v hv => absurd hv List.not_mem_nil
  have hruns := (depth_bounded 16 .cancelled hfresh).2 hplain [] hargs
  exact ⟨hplain, (hruns.1 ⟨0, 0⟩ "Go").symm⟩

/-- A class with a field whose initialiser cannot be evaluated, and a program that makes an object
of it. -/
def overrun : List TypeDef :=
  [{ (default : TypeDef) with
      name := "A", file := "Program.gen"
      fields := [⟨"x", false, some (.binary .div (.const (.int 1)) (.const (.int 0))), 1⟩] },
    { (default : TypeDef) with
      name := "Program", file := "Program.gen"
      methods := [{ (default : MethodDef) with
        name := "Main", isStatic := true, line := 1
        body := some [.expr 1 (.new ⟨none, "A"⟩ [])] }] }]

def overrunEnvironment : Environment :=
  { hierarchy := ⟨[], { (default : Image) with types := overrun }⟩, maxCallDepth := 1 }

/-- The frame of an initialiser is pushed though the limit is reached. -/
theorem depth_exceeded :
    (ofFuel 16).callStatic ⟨0, 1⟩ "Main" [] overrunEnvironment {} =
        .error (.thrown (.str "Attempted to divide by zero.")
          ⟨"DivideByZeroException", "Attempted to divide by zero.",
            [⟨"A", "init", "Program.gen", 1⟩, ⟨"Program", "Main", "Program.gen", 1⟩]⟩)
          { heap := { objects := #[⟨⟨0, 0⟩, "A", [("x", .null)]⟩] } } ∧
      overrunEnvironment.maxCallDepth = 1 :=
  ⟨rfl, rfl⟩

end Evaluator

end GenLang
