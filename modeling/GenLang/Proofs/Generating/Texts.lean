import GenLang.Proofs.Caching.Runs
import GenLang.Proofs.Generating.Merging

/-!
# The texts of a run

A run gives a listing of what was generated, what was printed, and what went wrong. The listing is
there as soon as the generators have run, whatever comes behind them; of the other two exactly one
is empty. A listing of several units, or of none, shows something; one of a single unit may be
empty.
-/

namespace GenLang

/-! ## Texts that are never empty -/

theorem append_ne_empty {s t : String} (h : s ≠ "" ∨ t ≠ "") : s ++ t ≠ "" := by
  intro happend
  obtain ⟨hs, ht⟩ := String.append_eq_empty_iff.1 happend
  exact h.elim (· hs) (· ht)

theorem StageError.message_ne_empty (e : StageError) : e.message ≠ "" := by
  cases e with
  | inputMissing a => exact append_ne_empty (.inr (by decide))
  | references e => exact append_ne_empty (.inl (by decide))
  | compile stage errors => exact append_ne_empty (.inl (append_ne_empty (.inr (by decide))))
  | emit stage cause => exact append_ne_empty (.inl (append_ne_empty (.inr (by decide))))
  | instantiation types => exact append_ne_empty (.inl (by decide))
  | generator errors => exact append_ne_empty (.inl (by decide))
  | execution e => exact append_ne_empty (.inl (append_ne_empty (.inr (by decide))))
  | cancelled => decide

theorem execute_ne_empty {bytes : List UInt8} {libraries : References} {limits : Limits}
    {output : String} (h : execute bytes libraries limits = .ok output) : output ≠ "" := by
  unfold execute at h
  obtain ⟨hierarchy, -, h⟩ := bind_eq_ok h
  obtain ⟨entry, -, h⟩ := bind_eq_ok h
  generalize entry.run hierarchy limits = ended at h
  obtain ⟨result, printed⟩ := ended
  cases result with
  | error e => cases e <;> cases h
  | ok =>
    dsimp only at h
    cases h
    split
    · simp [noOutput]
    · next hprinted => simpa using hprinted

namespace Runner

variable {r : Runner} {sources : List LibrarySource} {program generator : String}
  {cancellation : Cancellation} {patience left : Patience} {libraries : References}
  {gs : List Generator} {t : Transformation} {output : String} {result : RunResult}

/-! ## Stages -/

/-- A run has both texts, its libraries and its generators, and so much patience is left. -/
structure Prepared (r : Runner) (sources : List LibrarySource) (program generator : String)
    (patience : Patience) (libraries : References) (gs : List Generator) (left : Patience) :
    Prop where
  generator_given : Text.allBlank generator = false
  program_given : Text.allBlank program = false
  ready : ∃ between, (r.resolver.get sources patience).1 = .ok (libraries, between) ∧
    (r.compiler.compile generator libraries between).1 = .ok (gs, left)

/-- What generators make of the program of a run, and what patience is left behind them. -/
def Transforms (config : Config) (libraries : References) (gs : List Generator) (program : String)
    (cancellation : Cancellation) (t : Transformation) (left : Patience) : Prop :=
  ∃ plain between, Compilation.create "Program" [⟨config.programFile, program⟩] libraries .library
      cancellation.patience = .ok (plain, between) ∧
    (Transformation.run config.parallel plain gs { cancellation with patience := between }).1 =
      .ok (t, left)

/-- No generator reported an error, and the program is compiled with the generated units without
errors and, as nobody has cancelled it by then, executed to its end. -/
def Executes (config : Config) (libraries : References) (t : Transformation) (patience : Patience)
    (output : String) : Prop :=
  ∃ c bytes, t.augmented = some c ∧ c.hasErrors = false ∧ c.emit = .ok bytes ∧
    (∃ left, patience.check = .ok left) ∧ execute bytes libraries config.limits = .ok output

/-- All stages of a run end well. -/
def Completes (r : Runner) (sources : List LibrarySource) (program generator : String)
    (cancellation : Cancellation) (output : String) : Prop :=
  ∃ libraries gs between t left,
    r.Prepared sources program generator cancellation.patience libraries gs between ∧
    Transforms r.config libraries gs program { cancellation with patience := between } t left ∧
    Executes r.config libraries t left output

theorem executeAugmented_eq_ok {config : Config} :
    executeAugmented t libraries config.limits patience = .ok output ↔
      Executes config libraries t patience output := by
  unfold executeAugmented Executes
  constructor
  · intro h
    -- each stage that fails ends in an error, so that every one of them went well
    split at h
    · cases h
    · next c hc =>
      dsimp only at h
      split at h
      · cases h
      · next hok =>
        obtain ⟨bytes, hemit, h⟩ := bind_eq_ok h
        obtain ⟨left, hcheck, h⟩ := bind_eq_ok h
        exact ⟨c, bytes, hc, Bool.eq_false_iff.2 hok, mapError_eq_ok hemit,
          ⟨left, mapError_eq_ok hcheck⟩, mapError_eq_ok h⟩
  · rintro ⟨c, bytes, hc, hok, hemit, ⟨left, hcheck⟩, hexecute⟩
    simp only [hc, hok, hemit, hcheck, hexecute, Except.mapError, bind, Except.bind,
      Bool.false_eq_true, if_false]

theorem Executes.output_ne_empty {config : Config}
    (h : Executes config libraries t patience output) : output ≠ "" := by
  obtain ⟨c, bytes, -, -, -, -, hexecute⟩ := h
  exact execute_ne_empty hexecute

/-! ## How a run ends -/

theorem transform_of_transforms {config : Config}
    (h : Transforms config libraries gs program cancellation t left) :
    transform config libraries gs program cancellation =
      .ok (t.report, executeAugmented t libraries config.limits left) := by
  obtain ⟨plain, between, hcreate, hrun⟩ := h
  simp only [transform, hcreate, hrun, Except.mapError, bind, Except.bind, pure, Except.pure]

/-- Before the program is transformed, only being cancelled ends a run. -/
theorem transforms_or_cancelled (config : Config) (libraries : References) (gs : List Generator)
    (program : String) (cancellation : Cancellation) :
    (∃ t left, Transforms config libraries gs program cancellation t left) ∨
      transform config libraries gs program cancellation = .error .cancelled := by
  unfold transform Transforms
  -- Both the compilation and the generators fail only by being cancelled.
  cases Compilation.create "Program" [⟨config.programFile, program⟩] libraries .library
      cancellation.patience with
  | error e => exact .inr rfl
  | ok created =>
    obtain ⟨plain, between⟩ := created
    cases hrun : (Transformation.run config.parallel plain gs
        { cancellation with patience := between }).1 with
    | ok transformed =>
      obtain ⟨t, left⟩ := transformed
      exact .inl ⟨t, left, plain, between, rfl, hrun⟩
    | error e =>
      refine .inr ?_
      simp only [Except.mapError, bind, Except.bind, hrun]

theorem finish_of_transforms {config : Config}
    (h : Transforms config libraries gs program { cancellation with patience } t left) :
    finish config libraries program cancellation (.ok (gs, patience)) =
      (t.report, executeAugmented t libraries config.limits left) := by
  simp only [finish, Except.bind, transform_of_transforms h]

theorem Prepared.stages_eq
    (h : r.Prepared sources program generator cancellation.patience libraries gs left) :
    (r.stages sources program generator cancellation).1 =
      finish r.config libraries program cancellation (.ok (gs, left)) := by
  obtain ⟨between, hresolved, hcompiled⟩ := h.ready
  cases hget : r.resolver.get sources cancellation.patience with
  | mk result resolver =>
    rw [hget] at hresolved
    cases hresolved
    rw [stages_ok cancellation h.generator_given h.program_given hget, hcompiled]

/-- A run that is not prepared for its program lists nothing. -/
theorem stages_of_not_prepared (h : ¬ ∃ libraries gs left,
      r.Prepared sources program generator cancellation.patience libraries gs left) :
    ∃ e, (r.stages sources program generator cancellation).1 = ("", .error e) := by
  by_cases hgenerator : Text.allBlank generator
  · exact ⟨_, by rw [stages, if_pos hgenerator]⟩
  by_cases hprogram : Text.allBlank program
  · exact ⟨_, by rw [stages, if_neg hgenerator, if_pos hprogram]⟩
  rw [Bool.not_eq_true] at hgenerator hprogram
  cases hget : r.resolver.get sources cancellation.patience with
  | mk result resolver =>
    cases result with
    | error e => exact ⟨_, by rw [stages_error cancellation hgenerator hprogram hget]⟩
    | ok resolved =>
      obtain ⟨libraries, between⟩ := resolved
      rw [stages_ok cancellation hgenerator hprogram hget]
      cases hcompile : (r.compiler.compile generator libraries between).1 with
      | error e => exact ⟨e, rfl⟩
      | ok compiled =>
        obtain ⟨gs, left⟩ := compiled
        have hprepared :
            r.Prepared sources program generator cancellation.patience libraries gs left :=
          ⟨hgenerator, hprogram, between, congrArg Prod.fst hget, hcompile⟩
        exact absurd ⟨libraries, gs, left, hprepared⟩ h

/-- A result of a run, by the stage that the run has reached. -/
inductive Outcome (r : Runner) (sources : List LibrarySource) (program generator : String)
    (cancellation : Cancellation) : RunResult → Prop
  | unprepared (e : StageError) (h : ¬ ∃ libraries gs left,
        r.Prepared sources program generator cancellation.patience libraries gs left) :
      Outcome r sources program generator cancellation { error := e.message }
  | failed {libraries : References} {gs : List Generator} {between left : Patience}
      {t : Transformation} (e : StageError)
      (hprepared : r.Prepared sources program generator cancellation.patience libraries gs between)
      (htransforms :
        Transforms r.config libraries gs program { cancellation with patience := between } t left)
      (h : ∀ output, ¬ Executes r.config libraries t left output) :
      Outcome r sources program generator cancellation
        { generated := t.report, error := e.message }
  | completed {libraries : References} {gs : List Generator} {between left : Patience}
      {t : Transformation} {output : String}
      (hprepared : r.Prepared sources program generator cancellation.patience libraries gs between)
      (htransforms :
        Transforms r.config libraries gs program { cancellation with patience := between } t left)
      (h : Executes r.config libraries t left output) :
      Outcome r sources program generator cancellation { generated := t.report, output }

/-- What a run gives for the way its stages end. -/
def ofStages : String × Except StageError String → Except Cancelled RunResult
  | (generated, .ok output) => .ok { generated, output }
  | (_, .error .cancelled) => .error {}
  | (generated, .error e) => .ok { generated, error := e.message }

theorem run_fst (r : Runner) (sources : List LibrarySource) (program generator : String)
    (cancellation : Cancellation) : (r.run sources program generator cancellation).1 =
      ofStages (r.stages sources program generator cancellation).1 := by
  unfold run ofStages
  generalize r.stages sources program generator cancellation = ended
  obtain ⟨⟨generated, result⟩, r'⟩ := ended
  cases result with
  | ok output => rfl
  | error e => cases e <;> rfl

theorem ofStages_error {generated : String} {e : StageError}
    (h : ofStages (generated, .error e) = .ok result) :
    result = { generated, error := e.message } := by
  cases e <;> cases h <;> rfl

theorem outcome_of_run (h : (r.run sources program generator cancellation).1 = .ok result) :
    r.Outcome sources program generator cancellation result := by
  rw [run_fst] at h
  -- The stages in their order: each is reached only if those before it ended well.
  by_cases hprepared : ∃ libraries gs left,
      r.Prepared sources program generator cancellation.patience libraries gs left
  · obtain ⟨libraries, gs, between, hprepared⟩ := hprepared
    rw [hprepared.stages_eq] at h
    rcases transforms_or_cancelled r.config libraries gs program
        { cancellation with patience := between } with ⟨t, left, htransforms⟩ | hcancelled
    · rw [finish_of_transforms htransforms] at h
      cases hexecute : executeAugmented t libraries r.config.limits left with
      | ok output =>
        rw [hexecute] at h
        cases h
        exact .completed hprepared htransforms (executeAugmented_eq_ok.1 hexecute)
      | error e =>
        rw [hexecute] at h
        rw [ofStages_error h]
        refine .failed e hprepared htransforms fun output hexecutes => ?_
        rw [executeAugmented_eq_ok.2 hexecutes] at hexecute
        cases hexecute
    · simp only [finish, Except.bind, hcancelled] at h
      cases h
  · obtain ⟨e, hstages⟩ := stages_of_not_prepared hprepared
    rw [hstages] at h
    rw [ofStages_error h]
    exact .unprepared e hprepared

theorem run_of_runToEnd (h : (r.runToEnd sources program generator).1.error = "") :
    (r.run sources program generator {}).1 = .ok (r.runToEnd sources program generator).1 := by
  unfold runToEnd at h ⊢
  generalize r.run sources program generator {} = ended at h ⊢
  obtain ⟨result, r'⟩ := ended
  cases result with
  | ok result => rfl
  | error e => exact absurd h StageError.cancelled.message_ne_empty

theorem Prepared.unique {libraries' : References} {gs' : List Generator} {left' : Patience}
    (h : r.Prepared sources program generator patience libraries gs left)
    (h' : r.Prepared sources program generator patience libraries' gs' left') :
    libraries = libraries' ∧ gs = gs' ∧ left = left' := by
  obtain ⟨between, hresolved, hcompiled⟩ := h.ready
  obtain ⟨between', hresolved', hcompiled'⟩ := h'.ready
  rw [hresolved] at hresolved'
  cases hresolved'
  rw [hcompiled] at hcompiled'
  cases hcompiled'
  exact ⟨rfl, rfl, rfl⟩

theorem Transforms.unique {config : Config} {t' : Transformation} {left' : Patience}
    (h : Transforms config libraries gs program cancellation t left)
    (h' : Transforms config libraries gs program cancellation t' left') :
    t = t' ∧ left = left' := by
  obtain ⟨plain, between, hcreate, hrun⟩ := h
  obtain ⟨plain', between', hcreate', hrun'⟩ := h'
  rw [hcreate] at hcreate'
  cases hcreate'
  rw [hrun] at hrun'
  cases hrun'
  exact ⟨rfl, rfl⟩

theorem Completes.executes (h : r.Completes sources program generator cancellation output)
    (hprepared : r.Prepared sources program generator cancellation.patience libraries gs patience)
    (htransforms : Transforms r.config libraries gs program { cancellation with patience } t left) :
    Executes r.config libraries t left output := by
  obtain ⟨libraries', gs', between, t', left', hprepared', htransforms', hexecutes⟩ := h
  obtain ⟨rfl, rfl, rfl⟩ := hprepared.unique hprepared'
  obtain ⟨rfl, rfl⟩ := htransforms.unique htransforms'
  exact hexecutes

/-- A generator that adds a unit without a text. -/
def mute : String :=
  "type G : Generator \x7b fn Execute(context) \x7b context.AddSource(\"A\", \"\"); \x7d \x7d"

theorem mute_evaluates :
    ((ofConfig {}).runToEnd GeneratorCompiler.generationSources idle mute).1 =
      { output := noOutput } := by
  decide +kernel

/-- The three texts of a result fit together, whenever the run is cancelled. Nothing went wrong
exactly if all stages end well, and then, and only then, something was printed. Nothing is listed if
a text is missing, the libraries are not resolved or there are no generators; otherwise the listing
is that of the units generated for the program, whether or not a later stage fails. -/
theorem run_consistent (h : (r.run sources program generator cancellation).1 = .ok result) :
    (result.error = "" ↔
      ∃ output, r.Completes sources program generator cancellation output) ∧
    (result.output ≠ "" ↔ result.error = "") ∧
    (∀ output, r.Completes sources program generator cancellation output →
      result.output = output) ∧
    ((¬ ∃ libraries gs left,
        r.Prepared sources program generator cancellation.patience libraries gs left) →
      result.generated = "") ∧
    ∀ libraries gs between,
      r.Prepared sources program generator cancellation.patience libraries gs between →
      ∃ t left, Transforms r.config libraries gs program
          { cancellation with patience := between } t left ∧ result.generated = t.report := by
  -- A failure has a message, and nothing is printed beside it.
  have hfailure (e : StageError)
      (h : ∀ output, ¬ r.Completes sources program generator cancellation output) :
      (e.message = "" ↔ ∃ output, r.Completes sources program generator cancellation output) ∧
        (("" : String) ≠ "" ↔ e.message = "") :=
    ⟨iff_of_false e.message_ne_empty (not_exists.2 h),
      iff_of_false (fun hne => hne rfl) e.message_ne_empty⟩
  cases outcome_of_run h with
  | unprepared e hnot =>
    have hincomplete (output : String) :
        ¬ r.Completes sources program generator cancellation output := by
      rintro ⟨libraries, gs, between, t, left, hprepared, -⟩
      exact hnot ⟨libraries, gs, between, hprepared⟩
    obtain ⟨herror, houtput⟩ := hfailure e hincomplete
    exact ⟨herror, houtput, fun output hcompletes => absurd hcompletes (hincomplete output),
      fun _ => rfl,
      fun libraries gs between hprepared => absurd ⟨libraries, gs, between, hprepared⟩ hnot⟩
  | @failed libraries gs between left t e hprepared htransforms hfails =>
    have hincomplete (output : String) :
        ¬ r.Completes sources program generator cancellation output :=
      fun hcompletes => hfails output (hcompletes.executes hprepared htransforms)
    obtain ⟨herror, houtput⟩ := hfailure e hincomplete
    refine ⟨herror, houtput, fun output hcompletes => absurd hcompletes (hincomplete output),
      fun hnot => absurd ⟨libraries, gs, between, hprepared⟩ hnot,
      fun libraries' gs' between' hprepared' => ?_⟩
    obtain ⟨rfl, rfl, rfl⟩ := hprepared.unique hprepared'
    exact ⟨t, left, htransforms, rfl⟩
  | @completed libraries gs between left t output hprepared htransforms hexecutes =>
    refine ⟨?_, ?_, fun output' hcompletes => ?_,
      fun hnot => absurd ⟨libraries, gs, between, hprepared⟩ hnot,
      fun libraries' gs' between' hprepared' => ?_⟩
    · exact iff_of_true rfl
        ⟨output, libraries, gs, between, t, left, hprepared, htransforms, hexecutes⟩
    · exact iff_of_true hexecutes.output_ne_empty rfl
    · have hexecutes' := hcompletes.executes hprepared htransforms
      rw [← executeAugmented_eq_ok] at hexecutes hexecutes'
      exact Except.ok.inj (hexecutes.symm.trans hexecutes')
    · obtain ⟨rfl, rfl, rfl⟩ := hprepared.unique hprepared'
      exact ⟨t, left, htransforms, rfl⟩

/-- The stages of a short run ask sixteen times. -/
theorem mute_in_time :
    ((ofConfig {}).run GeneratorCompiler.generationSources idle mute { patience := some 16 }).1 =
        .ok { output := noOutput } ∧
      ((ofConfig {}).run GeneratorCompiler.generationSources idle mute
        { patience := some 15 }).1 = .error {} := by
  decide +kernel

/-- A run that is cancelled just too late, so that nothing goes wrong, though what it lists is
empty. Cancelled before the last time it asks, it has no result. -/
theorem run_consistent_mute :
    let late : Cancellation := { patience := some 16 }
    ((ofConfig {}).run GeneratorCompiler.generationSources idle mute { patience := some 15 }).1 =
      .error {} ∧
    ((ofConfig {}).run GeneratorCompiler.generationSources idle mute late).1 =
      .ok { output := noOutput } ∧
    (ofConfig {}).Completes GeneratorCompiler.generationSources idle mute late noOutput ∧
    ∃ libraries gs between t left, (ofConfig {}).Prepared GeneratorCompiler.generationSources
        idle mute late.patience libraries gs between ∧
      Transforms (ofConfig {}).config libraries gs idle { late with patience := between } t left ∧
      t.report = "" := by
  intro late
  have hrun : ((ofConfig {}).run GeneratorCompiler.generationSources idle mute late).1 =
      .ok { output := noOutput } := mute_in_time.1
  obtain ⟨herror, -, houtput, -, hlisting⟩ := run_consistent hrun
  obtain ⟨output, hcompletes⟩ := herror.1 rfl
  obtain rfl : noOutput = output := houtput output hcompletes
  obtain ⟨-, libraries, gs, between, -, -, hprepared, -⟩ := herror.1 rfl
  obtain ⟨t, left, htransforms, hreport⟩ := hlisting libraries gs between hprepared
  exact ⟨mute_in_time.2, hrun, hcompletes, libraries, gs, between, t, left, hprepared, htransforms,
    hreport.symm⟩

end Runner

/-! ## Empty listings -/

theorem Text.trimEnd_eq_empty {s : String} : trimEnd s = "" ↔ allBlank s = true := by
  rw [trimEnd, trimRight, allBlank, List.all_eq_true, ← String.toList_eq_nil_iff,
    String.toList_ofList, List.reverse_eq_nil_iff, List.dropWhile_eq_nil_iff]
  simp only [List.mem_reverse]

namespace Printer

theorem rightBrace_mem_typeDecl (d : TypeDecl) : sym .rightBrace ∈ typeDecl d := by
  unfold typeDecl
  dsimp only
  split <;> simp [line]

theorem rightBrace_mem_typeDecls {types : List TypeDecl} (h : types ≠ []) :
    sym .rightBrace ∈ typeDecls types := by
  rcases types with _ | ⟨d, _ | ⟨d', rest⟩⟩
  · exact absurd rfl h
  · exact rightBrace_mem_typeDecl d
  · exact List.mem_append_left _ (rightBrace_mem_typeDecl d)

end Printer

/-- Every declaration is printed with a brace, which is not blank. -/
theorem allBlank_formatTypes {types : List TypeDecl} :
    Text.allBlank (formatTypes types) = true ↔ types = [] := by
  constructor
  · intro hblank
    by_contra hne
    rw [Text.allBlank, List.all_eq_true, formatTypes, String.toList_join] at hblank
    -- All characters are blank, and a closing brace is among them.
    have hmem := Printer.rightBrace_mem_typeDecls hne
    have hbrace := hblank '\x7d'
      (List.mem_flatMap.2 ⟨_, List.mem_map_of_mem hmem, by decide⟩)
    revert hbrace
    decide
  · rintro rfl
    rfl

/-- Where nothing is declared there is not a single token. -/
theorem Grammar.IsFile.eq_nil_iff {ts : List Lexeme} {types : List TypeDecl} (h : IsFile ts types) :
    types = [] ↔ ts = [] := by
  cases h with
  | nil => simp
  | cons first _ =>
    have hpos := Parse.length_typeDecl_pos first
    refine iff_of_false (List.cons_ne_nil _ _) fun hnil => ?_
    rw [(List.append_eq_nil_iff.1 hnil).1] at hpos
    exact absurd hpos (Nat.lt_irrefl 0)

namespace Transformation

variable {program : Compilation} {gs : List Generator}

theorem listedText_eq_empty {u : SourceUnit} (h : (Parsed.ofSource u.text).errors = []) :
    listedText u = "" ↔ Lexeme.ofSource u.text = [] := by
  obtain ⟨types, hfile⟩ := (Parsed.recognizes_grammar u.text).1.1 h
  have htypes := (Parsed.recognizes_grammar u.text).2 types hfile
  have hformat : format? u.text = some (formatTypes types) := by
    rw [format?, Parsed.isOk, h, htypes]
    rfl
  -- Trimmed to nothing, printed as blanks, nothing declared, no token.
  rw [listedText, hformat, Option.getD_some, Text.trimEnd_eq_empty, allBlank_formatTypes,
    hfile.eq_nil_iff]

theorem headed_ne_empty (u : SourceUnit) : headed u ≠ "" := by
  unfold headed
  exact append_ne_empty (.inl (append_ne_empty (.inr (by decide))))

/-- No listing is empty but that of a single unit without a token. -/
theorem listing_eq_empty {units : List SourceUnit}
    (h : ∀ u ∈ units, (Parsed.ofSource u.text).errors = []) :
    listing units = "" ↔ ∃ u, units = [u] ∧ Lexeme.ofSource u.text = [] := by
  rcases units with _ | ⟨u, _ | ⟨v, rest⟩⟩
  · simp [listing, noSource]
  · rw [listing, listedText_eq_empty (h u List.mem_cons_self)]
    simp
  · refine iff_of_false (fun hempty => ?_) (by simp)
    have hlisting : listing (u :: v :: rest) =
        headed u ++ "\n\n" ++ "\n\n".intercalate ((v :: rest).map headed) :=
      String.intercalate_cons_cons
    rw [hlisting] at hempty
    -- The first heading alone is a text.
    exact append_ne_empty (.inl (append_ne_empty (.inl (headed_ne_empty u)))) hempty

/-- Where the generated units are compiled with the program, all of them can be read. -/
theorem parsed_of_augmented {parallel : Bool} {cancellation : Cancellation} {t : Transformation}
    {left : Patience} {c : Compilation}
    (h : (run parallel program gs cancellation).1 = .ok (t, left)) (hc : t.augmented = some c)
    (hok : c.hasErrors = false) : ∀ u ∈ t.generated, (Parsed.ofSource u.text).errors = [] := by
  obtain ⟨⟨outputs, patience⟩, -, h⟩ := bind_eq_ok h
  dsimp only [ofOutputs] at h
  split at h
  · cases h
    cases hc
  · obtain ⟨⟨c', last⟩, hcreate, h⟩ := bind_eq_ok h
    cases h
    cases hc
    obtain rfl := Compilation.eq_ofUnits_of_create hcreate
    exact fun u hu => Compilation.parsed_of_ok hok u (List.mem_append_right _ hu)

end Transformation

namespace Runner

variable {r : Runner} {sources : List LibrarySource} {program generator : String}
  {libraries : References} {gs : List Generator} {t : Transformation} {output : String}

theorem report_eq_empty {config : Config} {cancellation : Cancellation} {left left' : Patience}
    (h : Transforms config libraries gs program cancellation t left)
    (hexecutes : Executes config libraries t left' output) :
    t.report = "" ↔ ∃ u, t.generated = [u] ∧ Lexeme.ofSource u.text = [] := by
  obtain ⟨plain, between, -, hrun⟩ := h
  obtain ⟨c, bytes, haugmented, hok, -⟩ := hexecutes
  exact Transformation.listing_eq_empty (Transformation.parsed_of_augmented hrun haugmented hok)

/-- A run to which nothing went wrong shows what was printed, and a listing of what was generated,
unless that is a single unit without a token: the listing of such a unit is empty. -/
theorem runToEnd_shows (h : (r.runToEnd sources program generator).1.error = "") :
    (r.runToEnd sources program generator).1.output ≠ "" ∧
    ∃ libraries gs between t left, r.Prepared sources program generator none libraries gs between ∧
      Transforms r.config libraries gs program { patience := between } t left ∧
      (r.runToEnd sources program generator).1.generated = t.report ∧
      ((r.runToEnd sources program generator).1.generated = "" ↔
        ∃ u, t.generated = [u] ∧ Lexeme.ofSource u.text = []) := by
  have houtcome := outcome_of_run (run_of_runToEnd h)
  generalize (r.runToEnd sources program generator).1 = result at h houtcome ⊢
  cases houtcome with
  | unprepared e => exact absurd h e.message_ne_empty
  | failed e => exact absurd h e.message_ne_empty
  | @completed libraries gs between left t output hprepared htransforms hexecutes =>
    exact ⟨hexecutes.output_ne_empty, libraries, gs, between, t, left, hprepared, htransforms, rfl,
      report_eq_empty htransforms hexecutes⟩

/-- A single unit without a token is generated. -/
theorem runToEnd_shows_mute :
    ((ofConfig {}).runToEnd GeneratorCompiler.generationSources idle mute).1.output ≠ "" ∧
    ∃ libraries gs between t left, (ofConfig {}).Prepared GeneratorCompiler.generationSources idle
        mute none libraries gs between ∧
      Transforms (ofConfig {}).config libraries gs idle { patience := between } t left ∧
      ∃ u, t.generated = [u] ∧ Lexeme.ofSource u.text = [] := by
  obtain ⟨houtput, libraries, gs, between, t, left, hprepared, htransforms, -, hempty⟩ :=
    runToEnd_shows (congrArg RunResult.error mute_evaluates)
  exact ⟨houtput, libraries, gs, between, t, left, hprepared, htransforms,
    hempty.1 (congrArg RunResult.generated mute_evaluates)⟩

/-- So nothing is shown of what was generated, though nothing went wrong. -/
theorem runToEnd_mute :
    ((ofConfig {}).runToEnd GeneratorCompiler.generationSources idle mute).1.error = "" ∧
      ((ofConfig {}).runToEnd GeneratorCompiler.generationSources idle mute).1.generated = "" :=
  ⟨congrArg RunResult.error mute_evaluates, congrArg RunResult.generated mute_evaluates⟩

end Runner

end GenLang
