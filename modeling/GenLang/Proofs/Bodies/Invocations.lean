import GenLang.Proofs.Linking.Stages

/-!
# The invocations of a compilation

Every call that lowering meets is recorded once, and in the order in which it is met. That is the
order of the text but for fields: the initial values of a type are lowered before its methods,
wherever they stand. Not met is only what stands in a target to which nothing can be assigned.
-/

namespace GenLang

open Text

/-- An invocation tells of a call and the member that it stands in. -/
def CallSite.RecordedAs (sources : Sources) (a : CallSite) (i : Invocation) : Prop :=
  a.call.RecordedAs sources a.file a.type (a.type ++ "." ++ a.member) i

theorem TypeDecl.filter_isField (t : TypeDecl) :
    t.members.filter (·.isField) = t.fields.map .field := by
  unfold TypeDecl.fields
  induction t.members with
  | nil => rfl
  | cons m ms ih => cases m <;> simpa [Member.isField] using ih

theorem TypeDecl.filter_not_isField (t : TypeDecl) :
    t.members.filter (!·.isField) = t.methods.map .method := by
  unfold TypeDecl.methods
  induction t.members with
  | nil => rfl
  | cons m ms ih => cases m <;> simpa [Member.isField] using ih

/-- The calls of a member that lowering meets. -/
theorem Declaration.reached_eq (d : Declaration) (m : Member) :
    d.reached m = (Lowering.Reached m.parts).map fun call =>
      ⟨d.file, d.decl.name.name, m.name.name, false, call⟩ := by
  unfold reached memberSites Lowering.Reached Part.callsAll
  induction m.parts with
  | nil => rfl
  | cons p ps ih =>
    rw [List.flatMap_cons, List.filter_append, ih]
    cases hp : p.invalid <;> simp [hp, List.filter_map, Function.comp_def]

theorem forall₂_flatMap {α β γ : Type} {R : β → γ → Prop} {f : α → List β} {g : α → List γ}
    {as : List α} (h : ∀ a ∈ as, List.Forall₂ R (f a) (g a)) :
    List.Forall₂ R (as.flatMap f) (as.flatMap g) := by
  induction as with
  | nil => exact .nil
  | cons a as ih =>
    exact List.rel_append (h a List.mem_cons_self) (ih fun b hb => h b (List.mem_cons_of_mem a hb))

namespace Lowering

theorem Notes.Tell.recorded {c : LoweringContext} {F : Footprint} {s : LoweringState} {n : Notes}
    (h : n.Tell c F s) :
    List.Forall₂ (Call.RecordedAs c.sources c.file c.owner.name c.caller) F.calls
      n.invocations := by
  obtain ⟨new, hnew, hall⟩ := h.evolves.invocations
  rw [h.invocations, hnew]
  exact hall

variable {sources : Sources} {table : SymbolTable}

theorem recorded_type (d : Declaration) :
    List.Forall₂ (CallSite.RecordedAs sources) d.visited
      (type sources table d.symbol d).2.invocations := by
  rw [Declaration.visited, TypeDecl.filter_isField, TypeDecl.filter_not_isField,
    List.flatMap_append, List.flatMap_map, List.flatMap_map]
  simp only [type, members_eq, Notes.append]
  refine List.rel_append (forall₂_flatMap fun f _ => ?_) (forall₂_flatMap fun m _ => ?_)
  · obtain ⟨F, s, htell, hcalls, -⟩ :=
      tell_field (c := memberContext sources table d f.name f.isStatic) f
    rw [Declaration.reached_eq, ← hcalls, List.forall₂_map_left_iff]
    exact htell.recorded
  · obtain ⟨F, s, htell, htraces⟩ :=
      tell_method (c := memberContext sources table d m.name m.isStatic) m
    rw [Declaration.reached_eq, ← htraces.calls, List.forall₂_map_left_iff]
    exact htell.recorded

end Lowering

namespace Compilation

variable {name : String} {units : List SourceUnit} {references : List Image}
  {options : CompileOptions}

/-- If no name is taken, there is an invocation for each call but those in targets to which nothing
can be assigned: unit for unit, and within a unit in the order of the text, exactly if no field that
holds such a call stands behind another member of its type that holds one. -/
theorem invocations_recorded
    (h : ∀ d ∈ (ofUnits name units references options).diagnostics,
      d.has .duplicateType = false) :
    List.Forall₂ (CallSite.RecordedAs ⟨units⟩) (units.flatMap SourceUnit.visited)
        (ofUnits name units references options).model.invocations ∧
      ∀ u ∈ units, u.visited.Perm (u.sites.filter (!·.inInvalidTarget)) ∧
        u.sites.Pairwise CallSite.Precedes ∧
        (u.visited.Pairwise CallSite.Precedes ↔ ∀ d ∈ u.declarations, d.FieldsFirst) := by
  refine ⟨?_, fun u _ => ⟨u.visited_perm, u.pairwise_sites, u.pairwise_visited_iff⟩⟩
  have hmodel : (ofUnits name units references options).model.invocations =
      (accepted units references).flatMap fun d =>
        (Lowering.type ⟨units⟩ (entered units references).1 d.symbol d).2.invocations := by
    change (Lowering.types ⟨units⟩ (entered units references).1
      (accepted units references)).2.invocations = _
    rw [Lowering.types_eq fun d hd => find?_accepted hd, Lowering.members_eq]
  rw [hmodel, accepted_of_no_duplicates h, declarations_parseUnits, List.flatMap_assoc]
  exact forall₂_flatMap fun u _ => forall₂_flatMap fun d _ => Lowering.recorded_type d

/-- A field that holds a call behind a method that holds one, in a type whose other calls are inside
each other. -/
def fieldBehindUnits : List SourceUnit :=
  [⟨"A.gen", "type T { fn M() { A(T.B()).C(); } let x = B(); fn A(n) {} static fn B() {} }"⟩]

theorem invocations_recorded_fieldBehind :
    ((∀ d ∈ (ofUnits "M" fieldBehindUnits [] .library).diagnostics, d.has .duplicateType = false) ∧
      (ofUnits "M" fieldBehindUnits [] .library).model.invocations.map (·.method) =
        ["B", "C", "A", "B"]) ∧
      List.Forall₂ (CallSite.RecordedAs ⟨fieldBehindUnits⟩)
        (fieldBehindUnits.flatMap SourceUnit.visited)
        (ofUnits "M" fieldBehindUnits [] .library).model.invocations := by
  have hok : (∀ d ∈ (ofUnits "M" fieldBehindUnits [] .library).diagnostics,
      d.has .duplicateType = false) ∧
      (ofUnits "M" fieldBehindUnits [] .library).model.invocations.map (·.method) =
        ["B", "C", "A", "B"] := by
    decide +kernel
  exact ⟨hok, (invocations_recorded hok.1).1⟩

/-- A call in a target to which nothing can be assigned. -/
def callAsTargetUnits : List SourceUnit :=
  [⟨"A.gen", "type T { fn M() { F() = 1; } fn F() {} }"⟩]

/-- Whatever records calls in the order of some sites shows their methods in that order. -/
theorem methods_of_recorded {sources : Sources} {sites : List CallSite} {is : List Invocation}
    (h : List.Forall₂ (CallSite.RecordedAs sources) sites is) :
    sites.map (·.call.method) = is.map (·.method) :=
  Lowering.map_eq_of_forall₂ (fun _ _ h => h.method.symm) h

/-- Invocations are not always those of all calls in the order of the text, even if the units are
read without errors and no name is taken: a field behind a method comes too early, and a call that
is assigned to is missing. -/
theorem invocations_differ :
    (((parseUnits ⟨fieldBehindUnits⟩ fieldBehindUnits).2 = [] ∧
      ∀ d ∈ (ofUnits "M" fieldBehindUnits [] .library).diagnostics,
        d.has .duplicateType = false) ∧
      ¬ List.Forall₂ (CallSite.RecordedAs ⟨fieldBehindUnits⟩)
        (fieldBehindUnits.flatMap SourceUnit.sites)
        (ofUnits "M" fieldBehindUnits [] .library).model.invocations) ∧
    (((parseUnits ⟨callAsTargetUnits⟩ callAsTargetUnits).2 = [] ∧
      ∀ d ∈ (ofUnits "M" callAsTargetUnits [] .library).diagnostics,
        d.has .duplicateType = false) ∧
      ¬ List.Forall₂ (CallSite.RecordedAs ⟨callAsTargetUnits⟩)
        (callAsTargetUnits.flatMap SourceUnit.sites)
        (ofUnits "M" callAsTargetUnits [] .library).model.invocations) := by
  have hbehind : (fieldBehindUnits.flatMap SourceUnit.sites).map (·.call.method) ≠
      (ofUnits "M" fieldBehindUnits [] .library).model.invocations.map (·.method) := by
    decide +kernel
  have htarget : (callAsTargetUnits.flatMap SourceUnit.sites).map (·.call.method) ≠
      (ofUnits "M" callAsTargetUnits [] .library).model.invocations.map (·.method) := by
    decide +kernel
  exact ⟨⟨by decide +kernel, fun h => hbehind (methods_of_recorded h)⟩,
    ⟨by decide +kernel, fun h => htarget (methods_of_recorded h)⟩⟩

end Compilation

end GenLang
