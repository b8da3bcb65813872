import GenLang.Proofs.Linking.Compiled
import GenLang.Proofs.Scoping.Lowering

/-!
# Modules are well scoped

Members are lowered from an empty state, so what holds of the code in any state holds of the code of
a module: parameters get the first slots, and nothing else is in scope at the start of a body.
-/

namespace GenLang

namespace Lowering

variable {c : LoweringContext}

/-! ## Parameters -/

/-- The state in which the body of a method is lowered, behind its parameters. -/
def entry (c : LoweringContext) (ps : List Param) : LoweringState :=
  (((ps.mapM param).run c).run { scopes := [[]] }).2

theorem LoweringState.lookup_eq_find? (s : LoweringState) (name : String) :
    s.lookup name = (s.scopes.flatMap (·.reverse)).find? fun slot =>
      (s.locals[slot]?).map (·.name) == some name := by
  unfold LoweringState.lookup
  congr 1
  funext slot
  cases s.locals[slot]? <;> rfl

/-- The locals are parameters, all in one scope and of different names. -/
structure Entered (ps : List Param) (s : LoweringState) : Prop where
  shape : s.shape = ⟨[List.range ps.length], ps.length, 0⟩
  names : s.locals.toList.map (·.name) = ps.map (·.name.name)
  nodup : (ps.map (·.name.name)).Nodup

theorem Entered.lookup_iff {ps : List Param} {s : LoweringState} (h : Entered ps s) {name : String}
    {slot : Nat} : s.lookup name = some slot ↔ (ps.map (·.name.name))[slot]? = some name := by
  have hscopes : s.scopes.flatMap (·.reverse) = (List.range ps.length).reverse := by
    rw [show s.scopes = [List.range ps.length] from congrArg Shape.scopes h.shape]
    simp
  have hnamed (n : Nat) : ((s.locals[n]?).map (·.name) == some name) = true ↔
      (ps.map (·.name.name))[n]? = some name := by
    rw [beq_iff_eq, ← h.names, List.getElem?_map, Array.getElem?_toList]
  have hfound {n : Nat} (hn : s.lookup name = some n) : (ps.map (·.name.name))[n]? = some name := by
    rw [LoweringState.lookup_eq_find?] at hn
    have hpred := List.find?_some hn
    exact (hnamed n).1 hpred
  refine ⟨hfound, fun hslot => ?_⟩
  have hlt : slot < ps.length := by
    have hlength := (List.getElem?_eq_some_iff.1 hslot).1
    rwa [List.length_map] at hlength
  cases hlookup : s.lookup name with
  | none =>
    rw [LoweringState.lookup_eq_find?, hscopes, List.find?_eq_none] at hlookup
    exact absurd ((hnamed slot).2 hslot) (hlookup slot (by simpa using hlt))
  | some n =>
    -- Two parameters of the same name are one.
    have hn := hfound hlookup
    have hlength := (List.getElem?_eq_some_iff.1 hn).1
    rw [(List.getElem?_inj hlength h.nodup).1 (hn.trans hslot.symm)]

theorem Entered.declare {ps : List Param} {s s' : LoweringState} (h : Entered ps s) {p : Param}
    {l : LocalVariable} (hfresh : s.lookup p.name.name = none) (hname : l.name = p.name.name)
    (hshape : s'.shape = s.shape.declare) (hlocals : s'.locals = s.locals.push l) :
    Entered (ps ++ [p]) s' := by
  refine ⟨?_, ?_, ?_⟩
  · rw [hshape, h.shape, List.length_append, List.length_singleton, List.range_succ]
    rfl
  · rw [hlocals, Array.toList_push, List.map_append, List.map_append, h.names, List.map_singleton,
      List.map_singleton, hname]
  · rw [List.map_append, List.map_singleton, ← List.concat_eq_append]
    -- A parameter of the same name would have been found.
    refine h.nodup.concat fun hmem => ?_
    obtain ⟨slot, hslot⟩ := List.getElem?_of_mem hmem
    rw [h.lookup_iff.2 hslot] at hfresh
    cases hfresh

theorem entered_nil : Entered [] { scopes := [[]] } :=
  ⟨rfl, rfl, .nil⟩

theorem moves_params (done ps : List Param) :
    Moves c (ps.mapM param) fun s ds s' =>
      Entered done s → Entered (done ++ ps) s' ∧ ds.map (·.name) = ps.map (·.name.name) := by
  induction ps generalizing done with
  | nil =>
    rw [List.mapM_nil]
    exact moves_pure fun s hs => ⟨by rwa [List.append_nil], rfl⟩
  | cons p ps ih =>
    have hparam : Moves c (param p) fun s d s' =>
        Entered done s → Entered (done ++ [p]) s' ∧ d.name = p.name.name := by
      refine moves_bind (moves_declare p.name false) fun slot => moves_pure ?_
      rintro s' s ⟨hfresh, -, hshape, hlocals⟩ hs
      exact ⟨hs.declare hfresh rfl hshape hlocals, rfl⟩
    rw [List.mapM_cons]
    refine moves_bind hparam fun d => moves_bind (ih (done ++ [p])) fun ds => moves_pure ?_
    intro s'' s' hrest s hfirst hs
    obtain ⟨hs', hd⟩ := hfirst hs
    obtain ⟨hs'', hds⟩ := hrest hs'
    rw [List.append_assoc, List.singleton_append] at hs''
    exact ⟨hs'', by rw [List.map_cons, List.map_cons, hd, hds]⟩

/-! ## Members -/

theorem leads_body? (b : Option Block) :
    Leads c (body? b) fun σ ss σ' => σ.Grows σ' (ss.elim [] Image.Stmt.introducedAll) ∧
      ∀ r : Region, r.Covers c σ → ∀ b ∈ ss, Image.Stmt.WellScopedAll r b := by
  cases b with
  | none => exact leads_pure fun σ => ⟨.refl σ, fun _ _ _ h => nomatch h⟩
  | some b =>
    refine leads_bind (leads_block b) fun ss => leads_pure fun _ _ hss => ⟨hss.grows, ?_⟩
    rintro r hr _ ⟨⟩
    exact hss.fits r hr

end Lowering

/-- A method is what a declaration becomes, and its body is lowered where the name of each parameter
stands for the slot of its place. -/
def MethodDef.BindsParams (m : MethodDef) : Prop :=
  ∃ (c : LoweringContext) (d : MethodDecl), (Lowering.member c (Lowering.method d)).1 = m ∧
    m.params.map (·.name) = d.params.map (·.name.name) ∧
    ∀ slot (hslot : slot < d.params.length),
      (Lowering.entry c d.params).lookup d.params[slot].name.name = some slot

/-- All members of a type are well scoped. -/
structure TypeDef.WellScoped (t : TypeDef) : Prop where
  fields : ∀ f ∈ t.fields, f.WellScoped
  methods : ∀ m ∈ t.methods, m.WellScoped
  params : ∀ m ∈ t.methods, m.BindsParams

namespace Lowering

variable {c : LoweringContext}

/-- The parameters come before the body. -/
theorem moves_method (m : MethodDecl) (hstatic : c.isStatic = m.isStatic) :
    Moves c (method m) fun s d _ => s = {} → d.WellScoped ∧
      d.params.map (·.name) = m.params.map (·.name.name) ∧ Entered m.params (entry c m.params) := by
  have hbody : Moves c (do
      let params ← m.params.mapM param
      return (params, ← body? m.body)) fun s r s' => s = { scopes := [[]] } →
        r.1.map (·.name) = m.params.map (·.name.name) ∧ Entered m.params (entry c m.params) ∧
          List.range m.params.length ++ r.2.elim [] Image.Stmt.introducedAll =
            List.range s'.shape.size ∧
          ∀ b ∈ r.2, Image.Stmt.WellScopedAll
            ⟨List.range m.params.length, false, !m.isStatic⟩ b := by
    refine moves_bind (moves_params [] m.params).self fun ds => ?_
    refine moves_bind (leads_body? m.body) fun b => moves_pure ?_
    rintro s' t ⟨hgrows, hfits⟩ s ⟨hparams, hrun⟩ rfl
    obtain ⟨hentered, hnames⟩ := hparams entered_nil
    have hshape : t.shape = ⟨[List.range m.params.length], m.params.length, 0⟩ := hentered.shape
    rw [hshape] at hgrows hfits
    -- The body is lowered in the very state behind the parameters.
    have hentry : entry c m.params = t := congrArg Prod.snd hrun
    rw [hentry]
    refine ⟨hnames, hentered, hgrows.slots, hfits _ ⟨?_, nofun, fun hinstance => ?_⟩⟩
    · exact fun slot hslot => by simpa using hslot
    · rw [← hstatic, hinstance]
      rfl
  refine moves_bind (moves_inScope hbody) fun r => ?_
  refine moves_bind reads_get fun s => moves_bind (reads_lineOf m.name.span) fun line => ?_
  refine moves_pure fun s₄ s₃ hline s₂ hget s₁ hmethod hempty => ?_
  subst hempty
  obtain ⟨t, hbody, hpop⟩ := hmethod
  obtain ⟨hnames, hentered, hslots, hfits⟩ := hbody rfl
  have hlength : r.1.length = m.params.length := by
    simpa using congrArg List.length hnames
  have hsize : s.locals.size = t.shape.size := by
    rw [show s.locals.size = s.shape.size from rfl, hget.2, hpop]
    rfl
  refine ⟨⟨?_, ?_⟩, hnames, hentered⟩
  · dsimp only
    rw [hlength, hsize]
    exact hslots
  · dsimp only
    rw [hlength]
    exact hfits

theorem leads_field (f : FieldDecl) (hstatic : c.isStatic = f.isStatic) :
    Leads c (field f) fun σ d _ => σ = ⟨[], 0, 0⟩ → d.WellScoped := by
  refine leads_bind_reads (reads_inScope (reads_expr? f.init)) fun init => ?_
  refine leads_bind_reads (reads_lineOf f.span) fun line => leads_pure fun σ _ hinit hσ => ?_
  subst hσ
  refine hinit _ ⟨List.Subset.refl _, nofun, fun hinstance => ?_⟩
  rw [← hstatic, hinstance]
  rfl

theorem member_of_moves {α : Type} {body : Lowering α}
    {P : LoweringState → α → LoweringState → Prop} (h : Moves c body P)
    (hclean : (member c body).2.Clean) : ∃ s', P {} (member c body).1 s' :=
  ⟨_, (h {} _ _ rfl fun d hd => hclean d (Array.mem_toList_iff.2 hd)).2⟩

theorem wellScoped_type {sources : Sources} {s : SymbolTable} {d : Declaration}
    (hclean : (type sources s d.symbol d).2.Clean) : (type sources s d.symbol d).1.WellScoped := by
  obtain ⟨hfields, hmethods⟩ := clean_append hclean
  have hfs := members_of_clean (P := fun _ f => f.WellScoped) (fun f _ h => by
    obtain ⟨_, hf⟩ := member_of_moves (leads_field f rfl) h
    exact hf rfl) hfields
  have hms := members_of_clean (P := fun _ m => m.WellScoped ∧ m.BindsParams) (fun m _ h => by
    obtain ⟨_, hm⟩ := member_of_moves (moves_method m rfl) h
    obtain ⟨hscoped, hnames, hentered⟩ := hm rfl
    refine ⟨hscoped, _, m, rfl, hnames, fun slot hslot => hentered.lookup_iff.2 ?_⟩
    simp [hslot]) hmethods
  refine ⟨fun f hf => ?_, fun m hm => ?_, fun m hm => ?_⟩
  · obtain ⟨_, -, h⟩ := exists_of_forall₂_right hfs hf
    exact h
  · obtain ⟨_, -, h⟩ := exists_of_forall₂_right hms hm
    exact h.1
  · obtain ⟨_, -, h⟩ := exists_of_forall₂_right hms hm
    exact h.2

end Lowering

namespace Compilation

/-- The code of a module that was compiled without errors is well scoped. -/
theorem wellScoped_of_ok {name : String} {units : List SourceUnit} {references : List Image}
    {options : CompileOptions} (h : (ofUnits name units references options).hasErrors = false) :
    ∀ t ∈ (ofUnits name units references options).image.types, t.WellScoped :=
  types_of_ok Lowering.wellScoped_type h

/-- Methods whose locals come from everything that introduces one. -/
def nestedUnits : List SourceUnit :=
  [⟨"A.gen", "type A { fn M(a, b = 2) { let x = a; for i in x { if (i) { break; } } } }"⟩,
   ⟨"B.gen", "type B { let f = 1; fn M() { try { throw f; } catch (e) { return self.f + e; } } }"⟩]

theorem wellScoped_of_ok_nested :
    ((ofUnits "M" nestedUnits [] .library).hasErrors = false ∧
      (ofUnits "M" nestedUnits [] .library).types.map (·.methods.map (·.slots)) = [[4], [1]]) ∧
      ∀ t ∈ (ofUnits "M" nestedUnits [] .library).image.types, t.WellScoped := by
  have hok : (ofUnits "M" nestedUnits [] .library).hasErrors = false ∧
      (ofUnits "M" nestedUnits [] .library).types.map (·.methods.map (·.slots)) = [[4], [1]] := by
    decide +kernel
  exact ⟨hok, wellScoped_of_ok hok.1⟩

end Compilation

end GenLang
