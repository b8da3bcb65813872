import GenLang.Execution
import GenLang.Proofs.Linking.Soundness
import GenLang.Proofs.Linking.Stages

/-!
# Where a program starts

A compilation warns where nothing can be started, the host looks for what it starts, and the call
that starts it looks the method up once more. The three look-ups are written differently: by the
first method of a name, by the first static one, and along the base classes. They find the same
method as no two types of a module, and no two methods of a type, share a name.
-/

namespace GenLang

/-! ## Names of members -/

namespace Declaration

/-- Where no name is reported to be taken, names are distinct and none was seen before. -/
theorem nodup_of_no_duplicates {seen : List String} {ms : List Member}
    (h : duplicateMembers seen ms = []) :
    (ms.map (·.name.name)).Nodup ∧ ∀ m ∈ ms, m.name.name ∉ seen := by
  fun_induction duplicateMembers seen ms with
  | case1 seen => exact ⟨List.nodup_nil, fun _ hm => absurd hm List.not_mem_nil⟩
  | case2 seen m ms hseen ih => cases h
  | case3 seen m ms hseen ih =>
    obtain ⟨hnodup, hfresh⟩ := ih h
    have hrest : ∀ n ∈ ms, n.name.name ≠ m.name.name ∧ n.name.name ∉ seen :=
      fun n hn => not_or.1 fun hmem => hfresh n hn (List.mem_cons.2 hmem)
    refine ⟨List.nodup_cons.2 ⟨fun hmem => ?_, hnodup⟩, List.forall_mem_cons.2 ⟨?_, ?_⟩⟩
    · obtain ⟨n, hn, heq⟩ := List.mem_map.1 hmem
      exact (hrest n hn).1 heq
    · exact fun hmem => hseen (List.contains_iff_mem.2 hmem)
    · exact fun n hn => (hrest n hn).2

theorem sublist_methods (decl : TypeDecl) :
    (decl.methods.map (·.name.name)).Sublist (decl.members.map (·.name.name)) := by
  unfold TypeDecl.methods
  induction decl.members with
  | nil => exact .slnil
  | cons m ms ih =>
    cases m with
    | field f => exact ih.cons _
    | method m => exact ih.cons_cons _

theorem nodup_methods_of_no_faults {s : SymbolTable} {options : CompileOptions} {decl : TypeDecl}
    (h : faults s options decl = []) : (decl.methods.map (·.name.name)).Nodup := by
  simp only [faults, List.append_eq_nil_iff, List.map_eq_nil_iff] at h
  exact (nodup_of_no_duplicates h.1.1.1.1).1.sublist (sublist_methods decl)

/-- The types that a compilation declares are those that are no types of libraries. -/
theorem localTypes_eq {s : SymbolTable} {references : List Image} {ds : List Declaration}
    (h : s.types = (libraryTable references).types ++ ds.map symbol) :
    s.localTypes = ds.map symbol := by
  have hlibraries : (libraryTable references).types.filter (·.library.isNone) = [] := by
    refine List.filter_eq_nil_iff.2 fun t ht => ?_
    have hfind := SymbolTable.find?_of_mem ht
    rw [find?_libraryTable] at hfind
    obtain ⟨l, -, u, -, rfl⟩ := mem_libraryTypes.1 (List.mem_of_find?_eq_some hfind)
    exact Bool.false_ne_true
  have hown : (ds.map symbol).filter (·.library.isNone) = ds.map symbol := by
    refine List.filter_eq_self.2 fun t ht => ?_
    obtain ⟨d, -, rfl⟩ := List.mem_map.1 ht
    rfl
  rw [SymbolTable.localTypes, h, List.filter_append, hlibraries, hown, List.nil_append]

end Declaration

/-! ## What can be started -/

/-- No two types of a module, and no two methods of a type, share a name. -/
structure Image.Distinct (image : Image) : Prop where
  types : (image.types.map (·.name)).Nodup
  methods : ∀ t ∈ image.types, (t.methods.map (·.name)).Nodup

/-- A static method `Main` of a type `Program`. -/
structure Image.Starts (image : Image) (t : TypeDef) (m : MethodDef) : Prop where
  type : t ∈ image.types
  typeName : t.name = "Program"
  method : m ∈ t.methods
  methodName : m.name = "Main"
  isStatic : m.isStatic = true

/-- The only method of a name is the first one. -/
theorem TypeDef.findMethod?_of_mem {t : TypeDef} (hnodup : (t.methods.map (·.name)).Nodup)
    {m : MethodDef} (hm : m ∈ t.methods) : t.findMethod? m.name = some m :=
  find?_of_nodup hnodup hm

namespace Compilation

variable {name : String} {units : List SourceUnit} {references : List Image}
  {options : CompileOptions}

/-- What is warned of is that there is nothing to start. -/
theorem checkEntryPoint_eq_nil_iff {s : SymbolTable} {ds : List Declaration} {image : Image}
    (htypes : s.localTypes = ds.map Declaration.symbol)
    (hds : List.Forall₂ (Declared s) ds image.types) (hdistinct : image.Distinct) :
    Declaration.checkEntryPoint s = [] ↔ ∃ t m, image.Starts t m := by
  -- The check looks at the types of the module itself.
  have hmain : Declaration.checkEntryPoint s = [] ↔ ∃ d ∈ ds, d.symbol.name = "Program" ∧
      (d.symbol.method? "Main").any (·.isStatic) = true := by
    have hany : Declaration.checkEntryPoint s = [] ↔
        (((ds.map Declaration.symbol).filter (·.name == "Program")).any fun t =>
          (t.method? "Main").any (·.isStatic)) = true := by
      rw [Declaration.checkEntryPoint, htypes, ite_eq_left_iff]
      simp only [reduceCtorEq, imp_false, not_not]
      refine Iff.of_eq (congrArg (List.any _ · = true) (funext fun t => ?_))
      cases t.method? "Main" <;> rfl
    rw [hany]
    simp
  rw [hmain]
  constructor
  · -- the first method of the name is one
    rintro ⟨d, hd, hname, hstatic⟩
    obtain ⟨t, ht, hdeclared⟩ := Lowering.exists_of_forall₂_left hds hd
    rw [hdeclared.shows.method?, Option.any_map, Option.any_eq_true] at hstatic
    obtain ⟨m, hm, hstatic⟩ := hstatic
    refine ⟨t, m, ht, ?_, List.mem_of_find?_eq_some hm, ?_, hstatic⟩
    · rw [← hdeclared.shows.name, hname]
    · simpa using List.find?_some hm
  · -- and there is no other before it
    rintro ⟨t, m, h⟩
    obtain ⟨d, hd, hdeclared⟩ := Lowering.exists_of_forall₂_right hds h.type
    have hfind := TypeDef.findMethod?_of_mem (hdistinct.methods t h.type) h.method
    refine ⟨d, hd, hdeclared.shows.name.trans h.typeName, ?_⟩
    rw [hdeclared.shows.method?, ← h.methodName, hfind]
    exact h.isStatic

theorem distinct_of_ok (hok : (ofUnits name units references options).hasErrors = false) :
    (ofUnits name units references options).image.Distinct := by
  obtain ⟨ds, htypes, hlowered, hfaults, -⟩ := declarations_of_ok hok
  have hnodup := (ofUnits name units references options).model.symbols.nodup
  rw [htypes, List.map_append, List.nodup_append] at hnodup
  constructor
  · have hdeclared := hlowered.imp fun _ _ h => h.toDeclared
    rw [map_name_of_declared hdeclared] at hnodup
    exact hnodup.2.1
  · intro t ht
    obtain ⟨d, hd, hdeclared⟩ := Lowering.exists_of_forall₂_right hlowered ht
    have hsymbols : d.symbol.methods.map (·.name) =
        (t.methods.map MethodSymbol.ofDef).map (·.name) :=
      congrArg _ hdeclared.shows.methods
    have hsame : t.methods.map (·.name) = d.decl.methods.map (·.name.name) := by
      rw [List.map_map] at hsymbols
      exact hsymbols.symm.trans List.map_map
    rw [hsame]
    exact Declaration.nodup_methods_of_no_faults (hfaults d hd)

end Compilation

/-! ## What the host finds -/

/-- The first type of a name is the class that is found under it. -/
theorem Hierarchy.map_findClass? (h : Hierarchy) (name : String) :
    (h.findClass? name).map h.typeDef = h.main.types.find? (·.name == name) := by
  rw [findClass?, ← module_mainIndex]
  cases hfind : (h.module h.mainIndex).types.find? (·.name == name) with
  | none =>
    have hnone : (h.module h.mainIndex).types.findIdx? (·.name == name) = none :=
      List.findIdx?_eq_none_iff.2 fun t ht => by simpa using List.find?_eq_none.1 hfind t ht
    rw [findIn?, hnone]
    rfl
  | some t =>
    obtain ⟨x, hx, -, -, hdef⟩ := findIn?_of_find? (Nat.le_refl _) hfind
    rw [hx, Option.map_some, hdef]

namespace EntryPoint

variable {h : Hierarchy} {e : EntryPoint}

/-- What a program is given when it is started. -/
def args (e : EntryPoint) : List Value :=
  if e.takesArgument then [.null] else []

/-- The method that an entry point was found for: the first static method `Main` of `Program`, of
the parameters and the result that are kept of it. -/
structure Of (e : EntryPoint) (h : Hierarchy) (m : MethodDef) : Prop where
  cls : h.findClass? "Program" = some e.cls
  method : (h.typeDef e.cls).methods.find? (fun m => m.name == "Main" && m.isStatic) = some m
  params : m.params.length = e.args.length
  shape : m.shape = if e.awaitable then .awaitable else .void

section

variable {c : ClassId} (hcls : h.findClass? "Program" = some c)

include hcls

theorem find_of_no_main
    (hmain : ((h.typeDef c).methods.find? fun m => m.name == "Main" && m.isStatic) = none) :
    find h = .error .mainNotFound := by
  simp only [find, hcls, hmain]
  rfl

/-- A method that is found is what is started if its parameters and its result are as they should
be. -/
theorem find_of_main {m : MethodDef}
    (hmain : ((h.typeDef c).methods.find? fun m => m.name == "Main" && m.isStatic) = some m) :
    find h = if 1 < m.params.length then .error .mainArity
      else if m.shape = .value then .error .mainReturnShape
      else .ok ⟨c, m.params.length == 1, m.shape == .awaitable⟩ := by
  simp only [find, hcls, hmain]
  split
  · rfl
  · cases m.shape <;> rfl

end

theorem of_find (hfind : find h = .ok e) : ∃ m, e.Of h m := by
  -- the class, its method, few enough parameters, a shape that can be awaited: each may be the one
  -- that is missing
  cases hcls : h.findClass? "Program" with
  | none =>
    rw [find, hcls] at hfind
    cases hfind
  | some c =>
    cases hmain : (h.typeDef c).methods.find? fun m => m.name == "Main" && m.isStatic with
    | none =>
      rw [find_of_no_main hcls hmain] at hfind
      cases hfind
    | some m =>
      rw [find_of_main hcls hmain] at hfind
      split at hfind
      · cases hfind
      · next hfew =>
        split at hfind
        · cases hfind
        · next hshape =>
          cases hfind
          refine ⟨m, hcls, hmain, ?_, ?_⟩
          · by_cases hone : m.params.length = 1
            · simp [args, hone]
            · simp only [args, beq_iff_eq, hone, if_false, List.length_nil]
              omega
          · cases hm : m.shape
            · rfl
            · rfl
            · exact absurd hm hshape

/-- Nothing is found if and only if the module has nothing to start. -/
theorem not_found_iff (hdistinct : h.main.Distinct) :
    find h = .error .programNotFound ∨ find h = .error .mainNotFound ↔
      ¬ ∃ t m, h.main.Starts t m := by
  have hmap := h.map_findClass? "Program"
  cases hcls : h.findClass? "Program" with
  | none =>
    rw [hcls, Option.map_none, eq_comm, List.find?_eq_none] at hmap
    refine iff_of_true (.inl ?_) ?_
    · rw [find, hcls]
      rfl
    · rintro ⟨t, m, hstarts⟩
      exact hmap t hstarts.type (beq_iff_eq.2 hstarts.typeName)
  | some c =>
    rw [hcls, Option.map_some, eq_comm] at hmap
    cases hmain : (h.typeDef c).methods.find? fun m => m.name == "Main" && m.isStatic with
    | none =>
      refine iff_of_true (.inr (find_of_no_main hcls hmain)) ?_
      rintro ⟨t, m, hstarts⟩
      -- the class that is found is the only one of the name
      have hfirst := find?_of_nodup hdistinct.types hstarts.type
      rw [hstarts.typeName, hmap] at hfirst
      obtain rfl := Option.some.inj hfirst
      refine List.find?_eq_none.1 hmain m hstarts.method ?_
      rw [hstarts.methodName, hstarts.isStatic]
      rfl
    | some m =>
      have hname : m.name = "Main" ∧ m.isStatic = true := by simpa using List.find?_some hmain
      have hstarts : h.main.Starts (h.typeDef c) m :=
        ⟨List.mem_of_find?_eq_some hmap, by simpa using List.find?_some hmap,
          List.mem_of_find?_eq_some hmain, hname.1, hname.2⟩
      refine iff_of_false ?_ (not_not_intro ⟨_, m, hstarts⟩)
      rw [find_of_main hcls hmain]
      split
      · simp
      · split <;> simp

namespace Of

variable {m : MethodDef} (hof : e.Of h m)

include hof

theorem isStatic : m.name = "Main" ∧ m.isStatic = true := by
  simpa using List.find?_some hof.method

theorem mem_types : h.typeDef e.cls ∈ h.main.types := by
  have hmap := h.map_findClass? "Program"
  rw [hof.cls, Option.map_some] at hmap
  exact List.mem_of_find?_eq_some hmap.symm

/-- Where no two methods share a name, the look-up along the base classes finds the same method. -/
theorem findMethod?_eq (hdistinct : h.main.Distinct) :
    h.findMethod? e.cls "Main" = some (e.cls, m) := by
  rw [← hof.isStatic.1]
  apply Hierarchy.findMethod?_of_own
  exact TypeDef.findMethod?_of_mem (hdistinct.methods _ hof.mem_types)
    (List.mem_of_find?_eq_some hof.method)

/-- Every parameter is given an argument. -/
theorem accepts : m.accepts e.args.length = true := by
  have hrequired : m.requiredParams ≤ m.params.length := List.length_filter_le ..
  simp [MethodDef.accepts, ← hof.params, hrequired]

end Of

end EntryPoint

/-! ## What is run -/

theorem Run.bind_hierarchy {α : Type} (f : Hierarchy → Run α) (env : Environment)
    (m : Machine) : (Run.hierarchy >>= f) env m = f env.hierarchy env m :=
  rfl

theorem Machine.run_congr {α : Type} {m : Machine} {env : Environment} {body other : Run α}
    (h : body env m = other env m) : m.run env body = m.run env other := by
  rw [run, h, ← run]

/-- A static method that is found is called. -/
theorem Evaluator.callStatic_eq (k : Evaluator) {c owner : ClassId} {name : String} {m : MethodDef}
    {env : Environment} (hfind : env.hierarchy.findMethod? c name = some (owner, m))
    (hstatic : m.isStatic = true) (args : List Value) (machine : Machine) :
    k.callStatic c name args env machine = k.call owner m none args env machine := by
  rw [callStatic, Run.bind_hierarchy]
  simp only [hfind, hstatic, if_true]

namespace EntryPoint

/-- What a program prints and how it ends, if it is started at a method. -/
def runOf (e : EntryPoint) (h : Hierarchy) (m : MethodDef) (limits : Limits) :
    Except RuntimeError Unit × String :=
  let env : Environment := { hierarchy := h, maxCallDepth := limits.maxCallDepth }
  let (result, machine) :=
    Machine.run {} env ((Evaluator.ofFuel limits.fuel).call e.cls m none e.args)
  (result.map fun _ => (), machine.console.written)

variable {h : Hierarchy} {e : EntryPoint} {m : MethodDef}

theorem Of.run_eq (hof : e.Of h m) (hfind : h.findMethod? e.cls "Main" = some (e.cls, m))
    (limits : Limits) : e.run h limits = e.runOf h m limits := by
  have hcall (env : Environment) (henv : env.hierarchy = h) :
      Machine.run {} env ((Evaluator.ofFuel limits.fuel).callStatic e.cls "Main" e.args) =
        Machine.run {} env ((Evaluator.ofFuel limits.fuel).call e.cls m none e.args) := by
    subst henv
    exact Machine.run_congr (Evaluator.callStatic_eq _ hfind hof.isStatic.2 e.args {})
  exact congrArg (fun r => (r.1.map fun _ => (), r.2.console.written))
    (hcall { hierarchy := h, maxCallDepth := limits.maxCallDepth } rfl)

end EntryPoint

/-- A compilation and the host that its module is loaded into agree on where the program starts. -/
structure Compilation.StartsAlike (c : Compilation) (h : Hierarchy) : Prop where
  /-- It is warned if and only if the host finds no type or no method. -/
  warned : (∃ d ∈ c.diagnostics, d.has .missingEntryPoint = true) ↔
    EntryPoint.find h = .error .programNotFound ∨ EntryPoint.find h = .error .mainNotFound
  /-- What the host calls by name is the method that it has found, and takes what it is given. -/
  started : ∀ e, EntryPoint.find h = .ok e →
    ∃ m, e.Of h m ∧ h.findMethod? e.cls "Main" = some (e.cls, m) ∧
      m.accepts e.args.length = true ∧ ∀ limits, e.run h limits = e.runOf h m limits

/-- The compilation of an executable without errors and its host agree on where it starts. -/
theorem entry_points_agree {name : String} {units : List SourceUnit} {references : List Image}
    {options : CompileOptions} (hkind : options.kind = .executable)
    (hok : (Compilation.ofUnits name units references options).hasErrors = false) :
    ∃ h, Hierarchy.load (Compilation.ofUnits name units references options).image references =
        .ok h ∧ (Compilation.ofUnits name units references options).StartsAlike h := by
  have hdistinct := Compilation.distinct_of_ok hok
  refine ⟨_, Hierarchy.load_image _, ?_, ?_⟩
  · obtain ⟨ds, htypes, hlowered, -⟩ := Compilation.declarations_of_ok hok
    have hstarts := Compilation.checkEntryPoint_eq_nil_iff (Declaration.localTypes_eq htypes)
      (hlowered.imp fun _ _ h => h.toDeclared) hdistinct
    have hreported := Compilation.filter_missingEntryPoint name units references options
    rw [hkind] at hreported
    have hnone := List.filter_eq_nil_iff (p := (·.has .missingEntryPoint))
      (l := (Compilation.ofUnits name units references options).diagnostics)
    rw [hreported] at hnone
    rw [EntryPoint.not_found_iff hdistinct, ← not_congr (hnone.symm.trans hstarts)]
    simp
  · intro e hfind
    obtain ⟨m, hof⟩ := EntryPoint.of_find hfind
    have hfound := hof.findMethod?_eq hdistinct
    exact ⟨m, hof, hfound, hof.accepts, hof.run_eq hfound⟩

/-- A program that inherits another method of the name. -/
def programUnits : List SourceUnit :=
  [⟨"P.gen", "type Base { static fn Main() {} } type Program : Base { static fn Main(args) {} }"⟩]

theorem entry_points_agree_inherited :
    CompileOptions.executable.kind = .executable ∧
      (Compilation.ofUnits "P" programUnits [] .executable).hasErrors = false ∧
      ∃ h, Hierarchy.load (Compilation.ofUnits "P" programUnits [] .executable).image [] = .ok h ∧
        (Compilation.ofUnits "P" programUnits [] .executable).StartsAlike h :=
  have hok : (Compilation.ofUnits "P" programUnits [] .executable).hasErrors = false := by
    decide +kernel
  ⟨rfl, hok, entry_points_agree rfl hok⟩

/-- A method of objects does not start a program. -/
example : EntryPoint.find ⟨[], (Compilation.ofUnits "P"
    [⟨"P.gen", "type Program { fn Main() {} }"⟩] [] .executable).image⟩ = .error .mainNotFound := by
  decide +kernel

end GenLang
