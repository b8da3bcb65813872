import GenLang.Proofs.Linking.Widening

/-!
# More units

A program without errors keeps its code when it is compiled with more units. These may be wrong in
any way, or declare what the program declares: whatever is wrong is wrong with them.
-/

namespace GenLang

/-! ## Members and types -/

namespace Lowering

variable {α β : Type} {H : Prop} {file : String}

/-- Everything that notes tell is told of a file. -/
def Notes.Of (file : String) (n : Notes) : Prop :=
  ∀ d ∈ n.diagnostics, d.IsOf file

theorem Notes.Of.append {a b : Notes} (ha : a.Of file) (hb : b.Of file) : (a.append b).Of file :=
  List.forall_mem_append.2 ⟨ha, hb⟩

section

variable {c c' : LoweringContext} {body body' : Lowering α} (h : Follows H c c' body body')

include h

theorem of_member : (member c body).2.Of c.file := by
  intro d hd
  refine ((h {}).1.adds d (Array.mem_toList_iff.1 hd)).resolve_left fun hbefore => ?_
  exact absurd hbefore (Array.not_mem_empty d)

theorem member_follows (hH : H) (hclean : (member c body).2.Clean) :
    member c' body' = member c body := by
  have hrun : (body'.run c').run {} = (body.run c).run {} :=
    (h {}).2 hH fun d hd => hclean d (Array.mem_toList_iff.2 hd)
  rw [member, hrun, ← member]

end

theorem of_members {f : α → β × Notes} {as : List α} (h : ∀ a ∈ as, (f a).2.Of file) :
    (members f as).2.Of file := by
  rw [members_eq]
  intro d hd
  obtain ⟨a, ha, hd⟩ := List.mem_flatMap.1 hd
  exact h a ha d hd

theorem members_congr {f f' : α → β × Notes} {as : List α}
    (h : ∀ a ∈ as, (f a).2.Clean → f' a = f a) (hclean : (members f as).2.Clean) :
    members f' as = members f as := by
  induction as with
  | nil => rfl
  | cons a as ih =>
    obtain ⟨ha, has⟩ := clean_append (a := (f a).2) hclean
    obtain ⟨hfirst, hrest⟩ := List.forall_mem_cons.1 h
    rw [members, members, hfirst ha, ih hrest has]

variable {sources sources' : Sources} {s s' : SymbolTable} {owner : TypeSymbol} {d : Declaration}

theorem of_type : (type sources s owner d).2.Of d.file := by
  -- nothing is asked of another program
  have hfield (c : LoweringContext) (f : FieldDecl) :
      Follows False c (c.widen c.sources c.table) (field f) (field f) :=
    follows_field False.elim f
  have hmethod (c : LoweringContext) (m : MethodDecl) :
      Follows False c (c.widen c.sources c.table) (method m) (method m) :=
    follows_method False.elim m
  exact Notes.Of.append (of_members fun f _ => of_member (hfield _ f))
    (of_members fun m _ => of_member (hmethod _ m))

/-- A type that is lowered without errors is lowered to the same where the same is known. -/
theorem type_widen (h : s.Agrees s') (howner : owner ∈ s.types)
    (htext : sources'.text? d.file = sources.text? d.file)
    (hbases : ∀ b ∈ d.decl.bases, b.name ∈ s.types.map (·.name))
    (hclean : (type sources s owner d).2.Clean) :
    type sources' s' owner d = type sources s owner d := by
  have hknown : (d.decl.bases.filterMap fun b => s'.find? b.name) =
      d.decl.bases.filterMap fun b => s.find? b.name :=
    List.filterMap_congr fun b hb => h.find?_eq (hbases b hb)
  have hwiden (caller : String) (isStatic : Bool) : True →
      Widens ⟨sources, s, owner, d.file, caller, isStatic⟩ sources' s' :=
    fun _ => ⟨h, howner, htext⟩
  obtain ⟨hfields, hmethods⟩ := clean_append hclean
  have hfields' := members_congr
    (fun f _ => member_follows (follows_field (hwiden _ _) f) trivial) hfields
  have hmethods' := members_congr
    (fun m _ => member_follows (follows_method (hwiden _ _) m) trivial) hmethods
  rw [type, type, hknown, ← hfields', ← hmethods']
  rfl

theorem members_append (f : α → β × Notes) (as bs : List α) :
    members f (as ++ bs) =
      ((members f as).1 ++ (members f bs).1, (members f as).2.append (members f bs).2) := by
  rw [members_eq, members_eq, members_eq, List.map_append, List.flatMap_append,
    List.flatMap_append]
  rfl

end Lowering

/-! ## Units -/

theorem Sources.text?_append {units extra : List SourceUnit} {file : String}
    (h : ∀ u ∈ extra, u.name ≠ file) :
    (Sources.mk (units ++ extra)).text? file = (Sources.mk units).text? file := by
  have hnone : extra.reverse.find? (·.name == file) = none := by
    rw [List.find?_eq_none]
    intro u hu
    simpa using h u (List.mem_reverse.1 hu)
  rw [text?, List.reverse_append, List.find?_append, hnone, Option.none_or, ← text?]

theorem SyntaxError.isError_toDiagnostic (e : SyntaxError) (file source : String) :
    (e.toDiagnostic file source).isError = true := by
  show (e.problem.code.severity == .error) = true
  cases e.problem <;> rfl

theorem SyntaxError.isOf_toDiagnostic (e : SyntaxError) (file source : String) :
    (e.toDiagnostic file source).IsOf file := by
  rintro l ⟨⟩
  rfl

/-- A diagnostic at a place of one of some units, or at none. -/
def Diagnostic.IsOfUnits (units : List SourceUnit) (d : Diagnostic) : Prop :=
  ∃ u ∈ units, d.IsOf u.name

namespace Compilation

variable (sources sources' : Sources) (units extra : List SourceUnit)

theorem parseUnits_append :
    parseUnits sources (units ++ extra) =
      ((parseUnits sources units).1 ++ (parseUnits sources extra).1,
        (parseUnits sources units).2 ++ (parseUnits sources extra).2) := by
  simp only [parseUnits, List.map_append, List.flatMap_append]

variable {sources sources' units}

theorem file_of_mem_parseUnits {d : Declaration} (hd : d ∈ (parseUnits sources units).1) :
    ∃ u ∈ units, d.file = u.name := by
  obtain ⟨_, hp, hd⟩ := List.mem_flatMap.1 hd
  obtain ⟨u, hu, rfl⟩ := List.mem_map.1 hp
  obtain ⟨t, -, rfl⟩ := List.mem_map.1 hd
  exact ⟨u, hu, rfl⟩

theorem isOfUnits_parseUnits : ∀ d ∈ (parseUnits sources units).2, d.IsOfUnits units := by
  intro d hd
  obtain ⟨_, hp, hd⟩ := List.mem_flatMap.1 hd
  obtain ⟨u, hu, rfl⟩ := List.mem_map.1 hp
  obtain ⟨e, -, rfl⟩ := List.mem_map.1 hd
  exact ⟨u, hu, e.isOf_toDiagnostic _ _⟩

/-- Syntax errors are errors, so that there are none where there is no error. -/
theorem parseUnits_of_clean (h : ∀ d ∈ (parseUnits sources units).2, d.isError = false) :
    (parseUnits sources' units).2 = [] := by
  refine List.flatMap_eq_nil_iff.2 fun p hp => List.map_eq_nil_iff.2 ?_
  rw [List.eq_nil_iff_forall_not_mem]
  intro e he
  have herror := h _ (List.mem_flatMap.2 ⟨p, hp, List.mem_map_of_mem he⟩)
  rw [SyntaxError.isError_toDiagnostic] at herror
  cases herror

end Compilation

namespace Declaration

variable {sources sources' : Sources} {table : SymbolTable} {ds : List Declaration}

theorem enter_append (sources : Sources) (table : SymbolTable) (ds es : List Declaration) :
    enter sources table (ds ++ es) =
      ((enter sources (enter sources table ds).1 es).1,
        (enter sources table ds).2.1 ++ (enter sources (enter sources table ds).1 es).2.1,
        (enter sources table ds).2.2 ++ (enter sources (enter sources table ds).1 es).2.2) := by
  induction ds generalizing table with
  | nil => rfl
  | cons d ds ih =>
    rw [List.cons_append, enter, enter]
    cases table.insert d.symbol with
    | ok table => simp only [ih, List.cons_append]
    | error other => simp only [ih, List.cons_append]

/-- Whatever is reported is a taken name, where it is declared again. -/
theorem exists_of_mem_enter {x : Diagnostic} (hx : x ∈ (enter sources table ds).2.2) :
    ∃ d ∈ ds, ∃ message,
      x = sources.diagnostic .duplicateType d.file d.decl.name.span message := by
  induction ds generalizing table with
  | nil => cases hx
  | cons d ds ih =>
    rw [enter] at hx
    cases hinsert : table.insert d.symbol with
    | ok table =>
      rw [hinsert] at hx
      obtain ⟨e, he, hx⟩ := ih hx
      exact ⟨e, List.mem_cons_of_mem d he, hx⟩
    | error other =>
      rw [hinsert] at hx
      rcases List.mem_cons.1 hx with rfl | hx
      · exact ⟨d, List.mem_cons_self, _, rfl⟩
      · obtain ⟨e, he, hx⟩ := ih hx
        exact ⟨e, List.mem_cons_of_mem d he, hx⟩

theorem isOf_enter : ∀ x ∈ (enter sources table ds).2.2, ∃ d ∈ ds, x.IsOf d.file := by
  intro x hx
  obtain ⟨d, hd, message, rfl⟩ := exists_of_mem_enter hx
  exact ⟨d, hd, sources.isOf_diagnostic _ _ _ _⟩

/-- Where no name is taken, every declaration is entered, and it does not matter where a taken name
would be reported. -/
theorem enter_of_clean (h : ∀ x ∈ (enter sources table ds).2.2, x.isError = false) :
    enter sources' table ds = ((enter sources table ds).1, ds, []) := by
  induction ds generalizing table with
  | nil => rfl
  | cons d ds ih =>
    rw [enter] at h
    rw [enter, enter]
    cases hinsert : table.insert d.symbol with
    | ok table =>
      rw [hinsert] at h
      simp only [ih h]
    | error other =>
      rw [hinsert] at h
      have herror := h _ List.mem_cons_self
      rw [Lowering.isError_diagnostic] at herror
      cases herror

theorem isOf_check {options : CompileOptions} :
    ∀ x ∈ check sources table options ds, ∃ d ∈ ds, x.IsOf d.file := by
  intro x hx
  obtain ⟨d, hd, hx⟩ := List.mem_flatMap.1 hx
  obtain ⟨fault, -, rfl⟩ := List.mem_map.1 hx
  exact ⟨d, hd, sources.isOf_diagnostic _ _ _ _⟩

theorem isError_of_mem_checkEntryPoint {x : Diagnostic} (hx : x ∈ checkEntryPoint table) :
    x.isError = false := by
  unfold checkEntryPoint at hx
  dsimp only at hx
  split at hx
  · cases hx
  · obtain rfl := List.mem_singleton.1 hx
    rfl

end Declaration

/-! ## More declarations -/

/-- Declarations without faults that are lowered without errors are lowered to the same where the
same is known. -/
theorem Lowering.members_type_widen {sources sources' : Sources} {s s' : SymbolTable}
    {options : CompileOptions} {ds : List Declaration} (h : s.Agrees s')
    (hds : ∀ d ∈ ds, d.symbol ∈ s.types)
    (htext : ∀ d ∈ ds, sources'.text? d.file = sources.text? d.file)
    (hfaults : ∀ d ∈ ds, Declaration.faults s options d.decl = [])
    (hclean : (members (fun d => type sources s d.symbol d) ds).2.Clean) :
    members (fun d => type sources' s' d.symbol d) ds =
      members (fun d => type sources s d.symbol d) ds := by
  refine members_congr (fun d hd hd' => ?_) hclean
  refine type_widen h (hds d hd) (htext d hd) (fun b hb => ?_) hd'
  have hbases := Declaration.baseFaults_of_no_faults (hfaults d hd)
  obtain ⟨t, ht⟩ := (Declaration.bases_of_no_faults hbases).1 b hb
  obtain ⟨hmem, hname⟩ := SymbolTable.mem_of_find? ht
  exact List.mem_map.2 ⟨t, hmem, hname⟩

/-- Declarations that a table has entered, and that are without faults and lowered without errors,
are lowered to the same where more is entered behind them. -/
theorem Lowering.types_append {sources sources' : Sources} {s s' : SymbolTable}
    {options : CompileOptions} {ds es : List Declaration} (h : s.Extends s')
    (hds : ∀ d ∈ ds, d.symbol ∈ s.types) (hes : ∀ d ∈ es, d.symbol ∈ s'.types)
    (htext : ∀ d ∈ ds, sources'.text? d.file = sources.text? d.file)
    (hfaults : ∀ d ∈ ds, Declaration.faults s options d.decl = [])
    (hclean : (types sources s ds).2.Clean) :
    (types sources s ds).1 <+: (types sources' s' (ds ++ es)).1 ∧
      ∀ x ∈ (types sources' s' (ds ++ es)).2.diagnostics, x.isError →
        ∃ d ∈ es, x.IsOf d.file := by
  have hfound : ∀ d ∈ ds, s.find? d.decl.name.name = some d.symbol :=
    fun d hd => SymbolTable.find?_of_mem (hds d hd)
  have hfound' : ∀ d ∈ ds ++ es, s'.find? d.decl.name.name = some d.symbol := by
    intro d hd
    rcases List.mem_append.1 hd with hd | hd
    · exact h.find?_eq_some (hfound d hd)
    · exact SymbolTable.find?_of_mem (hes d hd)
  rw [types_eq hfound] at hclean
  rw [types_eq hfound, types_eq hfound', members_append,
    members_type_widen h.agrees hds htext hfaults hclean]
  refine ⟨List.prefix_append _ _, fun x hx herror => ?_⟩
  -- an error can only come from the declarations that were added
  rcases List.mem_append.1 hx with hx | hx
  · rw [hclean x hx] at herror
    cases herror
  · rw [members_eq] at hx
    obtain ⟨d, hd, hx⟩ := List.mem_flatMap.1 hx
    exact ⟨d, hd, of_type x hx⟩

/-- Declarations without errors keep their types in front of those of more declarations, and every
error is at one of these. -/
theorem Declaration.stages_append {sources sources' : Sources} {table : SymbolTable}
    {options options' : CompileOptions} {ds es : List Declaration} (hclosed : table.Closed)
    (hnative : options.allowNative → options'.allowNative)
    (htext : ∀ d ∈ ds, sources'.text? d.file = sources.text? d.file)
    (htaken : ∀ x ∈ (enter sources table ds).2.2, x.isError = false)
    (hcheck : ∀ x ∈ check sources (enter sources table ds).1 options (enter sources table ds).2.1,
      x.isError = false)
    (hnotes : (Lowering.types sources (enter sources table ds).1
      (enter sources table ds).2.1).2.Clean) :
    (Lowering.types sources (enter sources table ds).1 (enter sources table ds).2.1).1 <+:
        (Lowering.types sources' (enter sources' table (ds ++ es)).1
          (enter sources' table (ds ++ es)).2.1).1 ∧
      ∀ x ∈ (enter sources' table (ds ++ es)).2.2 ++
          check sources' (enter sources' table (ds ++ es)).1 options'
            (enter sources' table (ds ++ es)).2.1 ++
          (Lowering.types sources' (enter sources' table (ds ++ es)).1
            (enter sources' table (ds ++ es)).2.1).2.diagnostics,
        x.isError → ∃ d ∈ es, x.IsOf d.file := by
  have hfaults := Compilation.faults_of_clean hcheck
  have htypes := types_enter sources table ds
  -- the declarations are entered as before, and more behind them
  have hsame : enter sources' table ds = _ := enter_of_clean htaken
  have hall : (enter sources table ds).2.1 = ds := congrArg (·.2.1) (enter_of_clean htaken)
  rw [enter_append, hsame]
  dsimp only
  generalize enter sources table ds = first at *
  subst hall
  have hmore := types_enter sources' first.1 es
  have hsub' := (accepted_sublist sources' first.1 es).subset
  have htaken' : ∀ x ∈ (enter sources' first.1 es).2.2, ∃ d ∈ es, x.IsOf d.file := isOf_enter
  generalize enter sources' first.1 es = second at *
  have hextends : first.1.Extends second.1 := by
    refine ⟨SymbolTable.closed_of_no_faults hclosed htypes hfaults, ?_⟩
    rw [hmore]
    exact List.prefix_append _ _
  have hentered : ∀ d ∈ first.2.1, d.symbol ∈ first.1.types := by
    intro d hd
    rw [htypes]
    exact List.mem_append_right _ (List.mem_map_of_mem hd)
  have hentered' : ∀ d ∈ second.2.1, d.symbol ∈ second.1.types := by
    intro d hd
    rw [hmore]
    exact List.mem_append_right _ (List.mem_map_of_mem hd)
  obtain ⟨hfront, hnotes'⟩ := Lowering.types_append hextends hentered hentered'
    htext hfaults hnotes
  refine ⟨hfront, fun x hx herror => ?_⟩
  rw [List.nil_append] at hx
  rcases List.mem_append.1 hx with hx | hx
  · rcases List.mem_append.1 hx with hx | hx
    · exact htaken' x hx
    · rw [check, List.flatMap_append] at hx
      -- what had no fault before has none now
      rcases List.mem_append.1 hx with hx | hx
      · obtain ⟨d, hd, hx⟩ := List.mem_flatMap.1 hx
        rw [faults_of_agrees hextends.agrees (hentered d hd) hnative (hfaults d hd)] at hx
        cases hx
      · obtain ⟨d, hd, hx⟩ := isOf_check x hx
        exact ⟨d, hsub' hd, hx⟩
  · obtain ⟨d, hd, hx⟩ := hnotes' x hx herror
    exact ⟨d, hsub' hd, hx⟩

namespace Compilation

variable {name : String} {units extra : List SourceUnit} {references : List Image}
  {options options' : CompileOptions}

/-- A program without errors keeps its types in front of those of more units, and every error is at
one of these. -/
theorem ofUnits_append (hok : (ofUnits name units references options).hasErrors = false)
    (hclosed : (Declaration.libraryTable references).Closed)
    (hnames : ∀ u ∈ extra, ∀ v ∈ units, u.name ≠ v.name)
    (hnative : options.allowNative → options'.allowNative) :
    (ofUnits name units references options).types <+:
        (ofUnits name (units ++ extra) references options').types ∧
      ∀ d ∈ (ofUnits name (units ++ extra) references options').diagnostics,
        d.isError → d.IsOfUnits extra := by
  have hclean := isError_of_ok hok
  simp only [ofUnits, List.forall_mem_append] at hclean
  obtain ⟨⟨⟨⟨hparsed, htaken⟩, hcheck⟩, hnotes⟩, -⟩ := hclean
  have hparse := parseUnits_append ⟨units ++ extra⟩ units extra
  rw [parseUnits_of_clean hparsed, List.nil_append] at hparse
  have htext : ∀ d ∈ (parseUnits ⟨units⟩ units).1,
      (Sources.mk (units ++ extra)).text? d.file = (Sources.mk units).text? d.file := by
    intro d hd
    obtain ⟨v, hv, hfile⟩ := file_of_mem_parseUnits hd
    exact Sources.text?_append fun u hu => hfile ▸ hnames u hu v hv
  obtain ⟨hfront, hstages⟩ := Declaration.stages_append hclosed hnative htext htaken hcheck hnotes
  simp only [ofUnits, hparse, List.mem_append]
  refine ⟨hfront, fun x hx herror => ?_⟩
  have hstage (hx : ∃ d ∈ (parseUnits ⟨units ++ extra⟩ extra).1, x.IsOf d.file) :
      x.IsOfUnits extra := by
    obtain ⟨d, hd, hx⟩ := hx
    obtain ⟨u, hu, hfile⟩ := file_of_mem_parseUnits hd
    exact ⟨u, hu, hfile ▸ hx⟩
  simp only [List.mem_append] at hstages
  -- by stage: parsing, entering, checking, lowering, and the entry point, which is warned of only
  rcases hx with (((hx | hx) | hx) | hx) | hx
  · exact isOfUnits_parseUnits x hx
  · exact hstage (hstages x (.inl (.inl hx)) herror)
  · exact hstage (hstages x (.inl (.inr hx)) herror)
  · exact hstage (hstages x (.inr hx) herror)
  · split at hx
    · rw [Declaration.isError_of_mem_checkEntryPoint hx] at herror
      cases herror
    · cases hx

/-- More units only add to a program without errors, unless that is cancelled: its types stay in
front as they are, and no error is in a file of its own. The types of its libraries name bases of
these libraries only, as they do in every resolved set (`References.closed_of_resolve`). -/
theorem withUnits_only_adds {c : Compilation} {patience left : Patience}
    (hcreate : create name units references options patience = .ok (c, left))
    (hok : c.hasErrors = false) (hclosed : (Declaration.libraryTable references).Closed)
    (hnames : ∀ u ∈ extra, ∀ v ∈ units, u.name ≠ v.name)
    (hnative : options.allowNative → options'.allowNative) :
    ∃ c', c.withUnits extra options' none = .ok (c', none) ∧
      (∀ patience c'' left, c.withUnits extra options' patience = .ok (c'', left) → c'' = c') ∧
      c.image.types <+: c'.image.types ∧
      ∀ d ∈ c'.errors, ∀ l ∈ d.location, ∀ v ∈ c.units, l.file ≠ v.name := by
  obtain rfl := eq_ofUnits_of_create hcreate
  obtain ⟨hfront, herrors⟩ := ofUnits_append hok hclosed hnames hnative
  refine ⟨_, create_never _ _ _ _, fun patience c'' left => eq_ofUnits_of_create, hfront,
    fun d hd l hl v hv hfile => ?_⟩
  obtain ⟨hd, herror⟩ := List.mem_filter.1 hd
  obtain ⟨u, hu, hof⟩ := herrors d hd herror
  exact hnames u hu v hv ((hof l hl).symm.trans hfile)

end Compilation

/-- A unit that declares a type of the program again, and one on a base that is not there. -/
def clashingUnits : List SourceUnit :=
  [⟨"N.gen", "type B { static let m = 2; } type D : E { static let n = m; }"⟩]

theorem withUnits_only_adds_leaf :
    Compilation.create "M" leafUnits leafReferences .library none =
        .ok (Compilation.ofUnits "M" leafUnits leafReferences .library, none) ∧
      (Compilation.ofUnits "M" leafUnits leafReferences .library).hasErrors = false ∧
      (Declaration.libraryTable leafReferences).Closed ∧
      (∀ u ∈ clashingUnits, ∀ v ∈ leafUnits, u.name ≠ v.name) ∧
      (CompileOptions.library.allowNative → CompileOptions.executable.allowNative) ∧
      ∃ c', (Compilation.ofUnits "M" leafUnits leafReferences .library).withUnits clashingUnits
          .executable none = .ok (c', none) ∧
        (∀ patience c'' left, (Compilation.ofUnits "M" leafUnits leafReferences
          .library).withUnits clashingUnits .executable patience = .ok (c'', left) → c'' = c') ∧
        (Compilation.ofUnits "M" leafUnits leafReferences .library).image.types <+:
          c'.image.types ∧
        ∀ d ∈ c'.errors, ∀ l ∈ d.location,
          ∀ v ∈ (Compilation.ofUnits "M" leafUnits leafReferences .library).units,
            l.file ≠ v.name :=
  have hcreate : Compilation.create "M" leafUnits leafReferences .library none =
      .ok (Compilation.ofUnits "M" leafUnits leafReferences .library, none) :=
    Compilation.create_never _ _ _ _
  have hclosed := References.closed_of_resolve resolve_leaf writable_leaf
  have hnames : ∀ u ∈ clashingUnits, ∀ v ∈ leafUnits, u.name ≠ v.name := by decide
  have hnative : CompileOptions.library.allowNative → CompileOptions.executable.allowNative := id
  ⟨hcreate, leaf_evaluates.2.2, hclosed, hnames, hnative,
    Compilation.withUnits_only_adds hcreate leaf_evaluates.2.2 hclosed hnames hnative⟩

end GenLang
