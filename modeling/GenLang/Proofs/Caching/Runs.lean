import GenLang.Proofs.Caching.Recency
import GenLang.Proofs.Linking.Contracts
import GenLang.Runner

/-!
# What runs leave behind

A runner keeps the libraries it has resolved and the generators it has compiled. The libraries are
what they would be for the first run. The generators of a source may be those of another source with
the same tokens, and what these report names the lines of the other source.
-/

namespace GenLang

/-! ## What is kept -/

namespace GeneratorCompiler

variable {s t : GeneratorCompiler} {libraries : References}

/-- What is built does not depend on what was built before. -/
theorem build_eq (hfile : s.fileName = t.fileName) (hlimits : s.limits = t.limits)
    (source : String) (libraries : References) (patience : Patience) :
    s.build source libraries patience = t.build source libraries patience := by
  unfold build
  rw [hfile, hlimits]

/-- A compiler that holds nothing builds what it is asked for. -/
theorem compile_fresh (hfresh : s.cache.entries = []) {source : String}
    (hblank : Text.allBlank source = false) (patience : Patience) :
    (s.compile source libraries patience).1 = (s.build source libraries patience).1 := by
  have hcall := outcome_compile s source libraries patience
  generalize (s.compile source libraries patience).1 = result at *
  generalize (s.compile source libraries patience).2.1 = t at *
  cases hcall with
  | blank h =>
    rw [h] at hblank
    cases hblank
  | found _ hfound =>
    rw [hfresh] at hfound
    cases hfound
  | built _ _ hbuild => exact hbuild.symm
  | failed _ _ hbuild => exact hbuild.symm

end GeneratorCompiler

theorem Resolver.resolved_of_get {r resolver : Resolver} {sources : List LibrarySource}
    {patience left : Patience} {libraries : References}
    (h : r.get sources patience = (.ok (libraries, left), resolver)) :
    resolver.resolved = some libraries := by
  unfold get at h
  split at h
  · next set hset =>
    cases h
    exact hset
  · split at h <;> cases h
    rfl

namespace Runner

variable {r : Runner} {config : Config} {sources : List LibrarySource}

/-- The stages once there are libraries and generators. -/
def finish (config : Config) (libraries : References) (program : String)
    (cancellation : Cancellation) (generators : Except StageError (List Generator × Patience)) :
    String × Except StageError String :=
  let outcome := generators.bind fun (generators, patience) =>
    transform config libraries generators program { cancellation with patience }
  match outcome with
  | .error e => ("", .error e)
  | .ok outcome => outcome

section

variable {program generator : String} (cancellation : Cancellation)
  (hgenerator : Text.allBlank generator = false) (hprogram : Text.allBlank program = false)

include hgenerator hprogram

theorem stages_error {e : ReferenceError} {resolver : Resolver}
    (hget : r.resolver.get sources cancellation.patience = (.error e, resolver)) :
    r.stages sources program generator cancellation =
      (("", .error (.ofReferenceError e)), { r with resolver }) := by
  rw [stages, hgenerator, hprogram]
  simp only [hget, Bool.false_eq_true, if_false]

theorem stages_ok {libraries : References} {left : Patience} {resolver : Resolver}
    (hget : r.resolver.get sources cancellation.patience = (.ok (libraries, left), resolver)) :
    r.stages sources program generator cancellation =
      (finish r.config libraries program cancellation
          (r.compiler.compile generator libraries left).1,
        { r with
          resolver
          compiler := (r.compiler.compile generator libraries left).2.1 }) := by
  rw [stages, hgenerator, hprogram]
  simp only [hget, Bool.false_eq_true, if_false, finish]
  generalize (r.compiler.compile generator libraries left).1.bind _ = outcome
  cases outcome <;> rfl

end

/-- What runs are asked for. -/
structure Request where
  program : String
  generator : String
  cancellation : Cancellation

/-- A runner after some runs, the latest first. -/
def afterRuns (r : Runner) (sources : List LibrarySource) : List Request → Runner
  | [] => r
  | q :: earlier =>
    ((r.afterRuns sources earlier).run sources q.program q.generator q.cancellation).2

/-- Generators that were compiled from a source, for a runner of a configuration. -/
def Builds (config : Config) (sources : List LibrarySource) (source : String)
    (generators : List Generator) : Prop :=
  Text.allBlank source = false ∧ ∃ libraries,
    References.resolve sources none = .ok (libraries, none) ∧
      ((ofConfig config).compiler.build source libraries none).1 = .ok (generators, none)

/-- All that a runner keeps from earlier runs, on some generator sources, could have been made by a
first run. -/
structure Keeps (config : Config) (sources : List LibrarySource) (generators : List String)
    (r : Runner) : Prop where
  sameConfig : r.config = config
  fileName : r.compiler.fileName = config.generatorFile
  limits : r.compiler.limits = config.limits
  resolved : ∀ libraries ∈ r.resolver.resolved,
    References.resolve sources none = .ok (libraries, none)
  cached : ∀ e ∈ r.compiler.cache.entries, ∃ g ∈ generators, CacheKey.ofSource g = e.1 ∧
    Builds config sources g e.2

theorem keeps_ofConfig (config : Config) (sources : List LibrarySource) :
    Keeps config sources [] (ofConfig config) :=
  ⟨rfl, rfl, rfl, fun _ h => (nomatch h), fun _ h => absurd h List.not_mem_nil⟩

namespace Keeps

variable {generators : List String} (h : Keeps config sources generators r)

include h

theorem build_eq (source : String) (libraries : References) (patience : Patience) :
    r.compiler.build source libraries patience =
      (ofConfig config).compiler.build source libraries patience :=
  GeneratorCompiler.build_eq h.fileName h.limits source libraries patience

/-- Libraries are resolved to what they are resolved to now. -/
theorem get_eq : (r.resolver.get sources none).1 = References.resolve sources none := by
  unfold Resolver.get
  split
  · next set hset => exact (h.resolved set hset).symm
  · cases References.resolve sources none <;> rfl

theorem resolved_get {patience : Patience} :
    ∀ libraries ∈ (r.resolver.get sources patience).2.resolved,
      References.resolve sources none = .ok (libraries, none) := by
  unfold Resolver.get
  split
  · next set hset => exact h.resolved
  · next hnone =>
    cases hresolve : References.resolve sources patience with
    | error e => exact h.resolved
    | ok resolved =>
      rintro libraries ⟨⟩
      exact References.resolve_never hresolve

theorem compiler {source : String} {libraries : References} {patience : Patience}
    (hresolve : References.resolve sources none = .ok (libraries, none)) :
    let t := (r.compiler.compile source libraries patience).2.1
    t.fileName = config.generatorFile ∧ t.limits = config.limits ∧
      ∀ e ∈ t.cache.entries, ∃ g ∈ source :: generators, CacheKey.ofSource g = e.1 ∧
        Builds config sources g e.2 := by
  have hcall := GeneratorCompiler.outcome_compile r.compiler source libraries patience
  have hcached : ∀ e ∈ r.compiler.cache.entries, ∃ g ∈ source :: generators,
      CacheKey.ofSource g = e.1 ∧ Builds config sources g e.2 := by
    intro e he
    obtain ⟨g, hg, hbuilds⟩ := h.cached e he
    exact ⟨g, List.mem_cons_of_mem _ hg, hbuilds⟩
  dsimp only
  generalize (r.compiler.compile source libraries patience).1 = result at hcall
  generalize (r.compiler.compile source libraries patience).2.1 = t at hcall ⊢
  -- Only a generator that was compiled changes what is kept.
  cases hcall with
  | blank => exact ⟨h.fileName, h.limits, hcached⟩
  | found => exact ⟨h.fileName, h.limits, fun e he => hcached e (Cache.entries_get _ _ ▸ he)⟩
  | failed => exact ⟨h.fileName, h.limits, hcached⟩
  | @built hblank hmiss v left hbuild =>
    refine ⟨h.fileName, h.limits, fun e he => ?_⟩
    rcases Cache.mem_or_eq_of_mem_insert he with he | rfl
    · exact hcached e he
    · -- what is entered was compiled just now, by a call that was not cancelled
      have hnever := GeneratorCompiler.build_never hbuild
      rw [h.build_eq] at hnever
      exact ⟨source, List.mem_cons_self, rfl, hblank, libraries, hresolve, hnever⟩

/-- A call gives what is built first for its source, or for a source with the same digest. -/
theorem compile_eq {libraries : References} {source : String}
    (hresolve : References.resolve sources none = .ok (libraries, none))
    (hblank : Text.allBlank source = false) :
    ∃ g ∈ source :: generators, CacheKey.ofSource g = CacheKey.ofSource source ∧
      Text.allBlank g = false ∧
        (r.compiler.compile source libraries none).1 =
          ((ofConfig config).compiler.build g libraries none).1 := by
  have hcall := GeneratorCompiler.outcome_compile r.compiler source libraries none
  generalize (r.compiler.compile source libraries none).1 = result at hcall ⊢
  generalize (r.compiler.compile source libraries none).2.1 = t at hcall
  -- A hit stands for an earlier text with the same key; a miss compiles this one.
  cases hcall with
  | blank hall =>
    rw [hall] at hblank
    cases hblank
  | found _ hfound =>
    obtain ⟨g, hg, hkey, hblank', set, hset, hbuild⟩ := h.cached _ (Cache.mem_of_lookup hfound)
    rw [hresolve] at hset
    cases hset
    exact ⟨g, List.mem_cons_of_mem _ hg, hkey, hblank', hbuild.symm⟩
  | built _ _ hbuild =>
    rw [h.build_eq] at hbuild
    exact ⟨source, List.mem_cons_self, rfl, hblank, hbuild.symm⟩
  | failed _ _ hbuild =>
    rw [h.build_eq] at hbuild
    exact ⟨source, List.mem_cons_self, rfl, hblank, hbuild.symm⟩

end Keeps

theorem run_snd (r : Runner) (sources : List LibrarySource) (program generator : String)
    (cancellation : Cancellation) : (r.run sources program generator cancellation).2 =
      (r.stages sources program generator cancellation).2 := by
  unfold run
  split <;> next heq => rw [heq]

/-- A run keeps nothing else. -/
theorem Keeps.run {generators : List String} (h : Keeps config sources generators r) (q : Request) :
    Keeps config sources (q.generator :: generators)
      (r.run sources q.program q.generator q.cancellation).2 := by
  have hstays : Keeps config sources (q.generator :: generators) r := by
    refine ⟨h.sameConfig, h.fileName, h.limits, h.resolved, fun e he => ?_⟩
    obtain ⟨g, hg, hbuilds⟩ := h.cached e he
    exact ⟨g, List.mem_cons_of_mem _ hg, hbuilds⟩
  -- a request ends at the first stage that fails, and nothing behind it is touched
  rw [run_snd]
  by_cases hgenerator : Text.allBlank q.generator
  · rw [stages, if_pos hgenerator]
    exact hstays
  · by_cases hprogram : Text.allBlank q.program
    · rw [stages, if_neg hgenerator, if_pos hprogram]
      exact hstays
    · rw [Bool.not_eq_true] at hgenerator hprogram
      have hresolved : ∀ libraries ∈ (r.resolver.get sources q.cancellation.patience).2.resolved,
          References.resolve sources none = .ok (libraries, none) := h.resolved_get
      cases hget : r.resolver.get sources q.cancellation.patience with
      | mk result resolver =>
        rw [hget] at hresolved
        cases result with
        | error e =>
          rw [stages_error q.cancellation hgenerator hprogram hget]
          exact ⟨hstays.sameConfig, hstays.fileName, hstays.limits, hresolved, hstays.cached⟩
        | ok resolved =>
          obtain ⟨libraries, left⟩ := resolved
          have hresolve : References.resolve sources none = .ok (libraries, none) :=
            hresolved libraries (Resolver.resolved_of_get hget)
          rw [stages_ok q.cancellation hgenerator hprogram hget]
          obtain ⟨hfile, hlimits, hcached⟩ := h.compiler hresolve
          exact ⟨hstays.sameConfig, hfile, hlimits, hresolved, hcached⟩

theorem keeps_afterRuns (config : Config) (sources : List LibrarySource) (runs : List Request) :
    Keeps config sources (runs.map (·.generator)) ((ofConfig config).afterRuns sources runs) := by
  induction runs with
  | nil => exact keeps_ofConfig config sources
  | cons q earlier ih => exact ih.run q

/-! ## What is given -/

theorem runToEnd_congr {r r' : Runner} {program generator generator' : String}
    (h : (r.stages sources program generator {}).1 =
      (r'.stages sources program generator' {}).1) :
    (r.runToEnd sources program generator).1 = (r'.runToEnd sources program generator').1 := by
  unfold runToEnd run
  generalize r.stages sources program generator {} = outcome at *
  generalize r'.stages sources program generator' {} = outcome' at *
  obtain ⟨⟨listing, result⟩, s⟩ := outcome
  obtain ⟨⟨listing', result'⟩, s'⟩ := outcome'
  cases h
  cases result with
  | ok output => rfl
  | error e => cases e <;> rfl

/-- What a run gives is what a first run gives, for the same program and for a generator source with
the same digest: its own, or one of an earlier run. -/
theorem runToEnd_afterRuns (config : Config) (sources : List LibrarySource) (runs : List Request)
    (program generator : String) :
    ∃ g ∈ generator :: runs.map (·.generator), CacheKey.ofSource g = CacheKey.ofSource generator ∧
      (((ofConfig config).afterRuns sources runs).runToEnd sources program generator).1 =
        ((ofConfig config).runToEnd sources program g).1 := by
  have hkeeps := keeps_afterRuns config sources runs
  generalize (ofConfig config).afterRuns sources runs = r at hkeeps ⊢
  -- a run that looks no generators up is what it would be first
  have hself (h : (r.stages sources program generator {}).1 =
      ((ofConfig config).stages sources program generator {}).1) :
      ∃ g ∈ generator :: runs.map (·.generator),
        CacheKey.ofSource g = CacheKey.ofSource generator ∧
          (r.runToEnd sources program generator).1 =
            ((ofConfig config).runToEnd sources program g).1 :=
    ⟨generator, List.mem_cons_self, rfl, runToEnd_congr h⟩
  by_cases hgenerator : Text.allBlank generator
  · refine hself ?_
    rw [stages, stages, if_pos hgenerator, if_pos hgenerator]
  by_cases hprogram : Text.allBlank program
  · refine hself ?_
    rw [stages, stages, if_neg hgenerator, if_neg hgenerator, if_pos hprogram, if_pos hprogram]
  rw [Bool.not_eq_true] at hgenerator hprogram
  have hget := hkeeps.get_eq
  have hfirst : ((ofConfig config).resolver.get sources none).1 =
      References.resolve sources none := (keeps_ofConfig config sources).get_eq
  generalize hr : r.resolver.get sources none = got at hget
  generalize hf : (ofConfig config).resolver.get sources none = got' at hfirst
  obtain ⟨result, resolver⟩ := got
  obtain ⟨result', resolver'⟩ := got'
  cases hresolve : References.resolve sources none with
  | error e =>
    rw [hresolve] at hget hfirst
    cases hget
    cases hfirst
    refine hself ?_
    rw [stages_error {} hgenerator hprogram hr, stages_error {} hgenerator hprogram hf]
  | ok resolved =>
    obtain ⟨libraries, left⟩ := resolved
    have hnever := References.resolve_never hresolve
    rw [hresolve] at hget hfirst hnever
    cases hget
    cases hfirst
    cases hnever
    obtain ⟨g, hg, hkey, hblank, hcompile⟩ := hkeeps.compile_eq hresolve hgenerator
    refine ⟨g, hg, hkey, runToEnd_congr ?_⟩
    rw [stages_ok {} hgenerator hprogram hr, stages_ok {} hblank hprogram hf, hcompile,
      GeneratorCompiler.compile_fresh rfl hblank, hkeeps.sameConfig]
    rfl

/-- A generator that fails behind a text. -/
def failing (text : String) : String :=
  text ++ "type G : Generator \x7b fn Execute(context) \x7b throw \"broken\"; \x7d \x7d"

def idle : String :=
  "type Program { static fn Main() {} }"

/-- A runner that keeps the generators of one source: the failing generator on the second line, one
that does nothing, the failing generator on the first line. -/
def relaidRunner : Runner :=
  (ofConfig { cacheCapacity := 1 }).afterRuns GeneratorCompiler.generationSources
    [⟨idle, failing "", {}⟩, ⟨idle, GeneratorCompiler.quiet "H", {}⟩, ⟨idle, failing "\n", {}⟩]

/-- The failure on the second line is then told of the first. -/
theorem relaidRunner_differs :
    (relaidRunner.runToEnd GeneratorCompiler.generationSources idle (failing "\n")).1 ≠
      ((ofConfig { cacheCapacity := 1 }).runToEnd GeneratorCompiler.generationSources idle
        (failing "\n")).1 := by
  decide +kernel

end Runner

end GenLang
