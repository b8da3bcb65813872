import GenLang.Proofs.Linking.Hierarchies
import GenLang.Proofs.Linking.Standard
import GenLang.Proofs.Running.Fields
import GenLang.Proofs.Scoping.Compiled

/-!
# Fields of compiled programs

A compiled program keeps the fields of all its objects, those of exceptions included. A bare name
becomes access to a field only where there is a receiver, and only if the field is one of the class
whose code it stands in; such access never fails.
-/

namespace GenLang

/-! ## Exceptions -/

/-- Whatever module is loaded with the libraries, the exceptions that are made of faults have the
fields of exceptions. -/
def References.FaultsFit (references : References) : Prop :=
  ∀ main, (⟨references, main⟩ : Hierarchy).FaultsFit

/-- A type is, if it is the one of exceptions, based on nothing, and has a message only. -/
def TypeDef.FitsFaults (t : TypeDef) : Prop :=
  t.name = "Exception" →
    t.base = none ∧ (t.fields.filter (!·.isStatic)).map (·.name) = ["Message"]

theorem References.faultsFit_of_system {references : References}
    (hfits : ∀ l ∈ references, l.name = "System" → ∀ t ∈ l.types, t.FitsFaults) :
    FaultsFit references := by
  intro main c hc
  obtain ⟨l, hl, hlname, hmem, hname⟩ := Hierarchy.typeDef_of_findLibraryClass? hc
  obtain ⟨hbase, hfields⟩ := hfits l hl hlname _ hmem hname
  have hnone : (⟨references, main⟩ : Hierarchy).base? c = none := by
    rw [Hierarchy.base?, hbase]
    rfl
  rw [Hierarchy.fieldNames, Evaluator.instanceFields, Hierarchy.ancestors_of_no_base hnone,
    List.reverse_singleton, List.flatMap_singleton, List.map_map]
  exact congrArg List.eraseDups hfields

namespace StandardLibrary

/-- Exceptions are declared with a message only. -/
def fitsFaults (t : TypeDecl) : Bool :=
  t.name.name != "Exception" ||
    t.bases.isEmpty && (t.fields.filter (!·.isStatic)).map (·.name.name) == ["Message"]

theorem system_fitsFaults :
    (Parsed.ofSource (textOfLines systemLines)).types.all fitsFaults = true := by
  rw [Parsed.ofSource, Lexeme.ofSource, Lexeme.scan, toList_textOfLines]
  simp only [systemLines, List.flatMap_cons, List.flatMap_nil, String.reduceToList,
    List.cons_append, List.nil_append, List.append_nil]
  decide +kernel

end StandardLibrary

/-- A type is as it was declared. -/
theorem Declared.fitsFaults {s : SymbolTable} {d : Declaration} {t : TypeDef}
    (hd : Declared s d t) (h : StandardLibrary.fitsFaults d.decl = true) : t.FitsFaults := by
  intro hname
  have hdname : d.decl.name.name = "Exception" := hd.shows.name.trans hname
  rw [StandardLibrary.fitsFaults, hdname, bne_self_eq_false, Bool.false_or, Bool.and_eq_true,
    List.isEmpty_iff, beq_iff_eq] at h
  obtain ⟨hbases, hfields⟩ := h
  refine ⟨?_, ?_⟩
  · rw [hd.base, Declaration.bases, hbases]
    rfl
  · have hshown : d.decl.fields.map (fun f => (⟨f.name.name, f.isStatic⟩ : FieldSymbol)) =
        t.fields.map fun f => ⟨f.name, f.isStatic⟩ := hd.shows.fields
    have hfiltered := congrArg (fun fs => (fs.filter (!·.isStatic)).map FieldSymbol.name) hshown
    simp only [List.filter_map, List.map_map] at hfiltered
    exact hfiltered.symm.trans hfields

theorem References.faultsFit_standard {more : List LibrarySource} {patience left : Patience}
    {references : References} (h : resolve (.standard :: more) patience = .ok (references, left))
    (hwritable : Writable (.standard :: more) references) : FaultsFit references := by
  have hplace : StandardLibrary.all[0]? =
      some ("System", StandardLibrary.textOfLines StandardLibrary.systemLines) := rfl
  obtain ⟨image, himage, hname, s, ds, hmade, hparsed⟩ := madeOf_standard h hwritable hplace
  apply faultsFit_of_system
  intro l hl hlname t ht
  -- Another library of this name there is not.
  have hnames := (stack_of_resolve h hwritable).names_nodup
  obtain rfl : l = image := List.inj_on_of_nodup_map hnames hl (List.mem_of_getElem? himage)
    (hlname.trans hname.symm)
  obtain ⟨d, hd, hdeclared⟩ := Lowering.exists_of_forall₂_right hmade.declared ht
  have hall := List.all_eq_true.1 StandardLibrary.system_fitsFaults
  exact hdeclared.fitsFaults (hall _ (hparsed d hd))

/-! ## Code is well scoped -/

namespace Compilation

variable {name : String} {units : List SourceUnit} {references : List Image}
  {options : CompileOptions}

theorem scoped_of_ok (h : (ofUnits name units references options).hasErrors = false) :
    ∀ t ∈ (ofUnits name units references options).image.types,
      (∀ f ∈ t.fields, f.WellScoped) ∧ ∀ m ∈ t.methods, m.WellScoped := by
  refine types_of_ok (fun hclean => ?_) h
  have hscoped := Lowering.wellScoped_type hclean
  exact ⟨hscoped.fields, hscoped.methods⟩

end Compilation

theorem References.scoped_of_resolve {sources : List LibrarySource} {patience left : Patience}
    {references : References} (h : resolve sources patience = .ok (references, left))
    (hwritable : Writable sources references) : ∀ l ∈ references, ∀ t ∈ l.types,
      (∀ f ∈ t.fields, f.WellScoped) ∧ ∀ m ∈ t.methods, m.WellScoped := by
  obtain ⟨libraries, hlibraries, hlength, hcompiled⟩ := compiled_of_resolve h
  intro l hl
  obtain ⟨i, hi, rfl⟩ := List.getElem_of_mem hl
  have hlibrary : libraries[i]? = some libraries[i] := List.getElem?_eq_getElem (by omega)
  obtain ⟨text, image, himage, htext, hcompile⟩ := hcompiled i _ hlibrary
  obtain ⟨hok, hdecode⟩ := readBack_ok hcompile
  obtain rfl := Image.eq_of_decode (hwritable libraries hlibraries _ (List.getElem_mem _) text
    htext _ (List.take_prefix i references)) hdecode
  rw [List.getElem?_eq_getElem hi] at himage
  rw [Option.some.inj himage]
  exact Compilation.scoped_of_ok hok

/-! ## Bare names -/

namespace Lowering

open Text

variable {α β : Type} {c : LoweringContext}

/-- What is lowered is as wanted, whatever is reported. -/
def Yields (c : LoweringContext) (x : Lowering α) (P : α → Prop) : Prop :=
  ∀ s, P ((x.run c).run s).1

theorem yields_pure {P : α → Prop} {a : α} (h : P a) : Yields c (pure a) P :=
  fun _ => h

theorem yields_bind {x : Lowering α} {f : α → Lowering β} {P : α → Prop} {Q : β → Prop}
    (hx : Yields c x P) (hf : ∀ a, P a → Yields c (f a) Q) : Yields c (x >>= f) Q :=
  fun s => hf _ (hx s) _

theorem yields_read : Yields c read (· = c) :=
  fun _ => rfl

theorem yields_anything {x : Lowering α} : Yields c x fun _ => True :=
  fun _ => trivial

/-- A field for objects is found for a name where there is a receiver. -/
structure Names (c : LoweringContext) (name field : String) : Prop where
  field : field = name
  isStatic : c.isStatic = false
  found : ∃ owner f, c.table.member? c.owner.name name = some (owner, .field f) ∧
    f.isStatic = false

theorem yields_resolve (name : String) (span : Span) :
    Yields c (resolve name span) fun r => ∀ f, r = some (.instanceField f) → Names c name f := by
  refine yields_bind yields_read ?_
  rintro c' rfl
  refine yields_bind yields_anything fun slot _ => ?_
  cases slot with
  | some slot => exact yields_pure fun f hf => by cases hf
  | none =>
    dsimp only
    split
    · next declaring f hmember =>
      split
      · exact yields_pure fun g hg => by cases hg
      · next hinstance =>
        split
        · refine yields_bind yields_anything fun _ _ => ?_
          exact yields_pure fun g hg => by cases hg
        · next hself =>
          -- Only here a name becomes access to a field: neither the field nor the place is static.
          refine yields_pure fun g hg => ?_
          cases hg
          have hname := List.find?_some (SymbolTable.ancestor_of_member? hmember).2
          exact ⟨beq_iff_eq.1 hname, by simpa using hself, declaring, f, hmember,
            by simpa using hinstance⟩
    · refine yields_bind yields_anything fun _ _ => ?_
      exact yields_pure fun g hg => by cases hg
    · split
      · exact yields_pure fun g hg => by cases hg
      · refine yields_bind yields_anything fun _ _ => ?_
        exact yields_pure fun g hg => by cases hg

/-- A bare name that becomes access to a field becomes one to that field of the receiver. -/
theorem yields_name (name : String) (span : Span) :
    Yields c (expr (.name span name)) fun e =>
      ∀ target f, e = .field target f → target = .self ∧ Names c name f := by
  rw [expr]
  refine yields_bind (yields_resolve name span) fun r hr => ?_
  cases r with
  | none => exact yields_pure fun target f h => by cases h
  | some r =>
    cases r with
    | slot slot =>
      refine yields_bind yields_anything fun _ _ => ?_
      exact yields_pure fun target f h => by cases h
    | instanceField field =>
      refine yields_pure fun target f h => ?_
      cases h
      exact ⟨rfl, hr _ rfl⟩
    | staticField owner field => exact yields_pure fun target f h => by cases h
    | type t => exact yields_pure fun target f h => by cases h

theorem yields_place_name (name : String) (span : Span) :
    Yields c (place (.name span name)) fun p =>
      ∀ target f, p = some (.field target f) → target = .self ∧ Names c name f := by
  unfold place
  refine yields_bind (yields_resolve name span) fun r hr => ?_
  cases r with
  | none => exact yields_pure fun target f h => by cases h
  | some r =>
    cases r with
    | instanceField field =>
      refine yields_pure fun target f h => ?_
      cases h
      exact ⟨rfl, hr _ rfl⟩
    | type t =>
      refine yields_bind yields_anything fun _ _ => ?_
      exact yields_pure fun target f h => by cases h
    | slot slot => exact yields_pure fun target f h => by cases h
    | staticField owner field => exact yields_pure fun target f h => by cases h

end Lowering

/-- The names that a table finds as fields for objects are those of the fields of the class. -/
theorem Mirrors.mem_fieldNames {s : SymbolTable} {h : Hierarchy} (hm : Mirrors s h) {x : ClassId}
    (hx : h.HasClass x) {owner : TypeSymbol} {name : String} {f : FieldSymbol}
    (hfound : s.member? (h.nameOf x) name = some (owner, .field f))
    (hinstance : f.isStatic = false) : name ∈ h.fieldNames x := by
  obtain ⟨howner, hfield⟩ := SymbolTable.ancestor_of_member? hfound
  obtain ⟨y, hy, hstands⟩ := Lowering.exists_of_forall₂_left (hm.ancestors hx) howner
  rw [hstands.shows.field?] at hfield
  obtain ⟨g, hg, rfl⟩ := Option.map_eq_some_iff.1 hfield
  have hname := List.find?_some hg
  exact Hierarchy.mem_fieldNames_iff.2
    ⟨y, hy, g, List.mem_of_find?_eq_some hg, hinstance, beq_iff_eq.1 hname⟩

/-! ## Programs -/

/-- Objects keep exactly the fields of their classes: in the machine between runs, and during a run,
wherever code is evaluated. Access to a field of the receiver that the running code may name does
not fail, to read it or to write it. -/
def Hierarchy.KeepsFields (h : Hierarchy) : Prop :=
  ∀ (env : Environment) (m : Machine), env.hierarchy = h → m.Between env →
    m.keepsFields h ∧ ∀ (ending : Stop) (n : Nat),
      ((Watch.fields.over ending (.granted ending)).ofFuel n).RunsAs (Evaluator.ofFuel n) env m

/-- In code of a class, bare names become access to fields only where there is a receiver, only to
that of the receiver, and only if the field is one of the class. -/
def LoweringContext.NamesFieldsOf (c : LoweringContext) (h : Hierarchy) (x : ClassId) : Prop :=
  ∀ span name s target f,
    ((((Lowering.expr (.name span name)).run c).run s).1 = .field target f ∨
      (((Lowering.place (.name span name)).run c).run s).1 = some (.field target f)) →
    target = .self ∧ c.isStatic = false ∧ f = name ∧ f ∈ h.fieldNames x

theorem Hierarchy.keepsFields_of {h : Hierarchy} (hscoped : h.Scoped) (hfaults : h.FaultsFit)
    (hdistinct : h.Distinct) : h.KeepsFields := by
  rintro env m rfl hm
  refine ⟨hm.sound.keepsFields hfaults, fun ending n => ?_⟩
  have hgranted := Interpretation.conform_granted hscoped hfaults hdistinct ending
  exact ((Watch.accepts_fields hfaults).conform ending hgranted).runsAs n hm

theorem Mirrors.namesFieldsOf {s : SymbolTable} {h : Hierarchy} (hm : Mirrors s h) {x : ClassId}
    (hx : h.HasClass x) {c : LoweringContext} (htable : c.table = s)
    (howner : c.owner.name = h.nameOf x) : c.NamesFieldsOf h x := by
  intro span name s' target f hlowered
  obtain ⟨htarget, hnames⟩ : target = .self ∧ Lowering.Names c name f :=
    hlowered.elim (Lowering.yields_name name span s' target f)
      (Lowering.yields_place_name name span s' target f)
  obtain ⟨owner, g, hfound, hinstance⟩ := hnames.found
  rw [htable, howner] at hfound
  refine ⟨htarget, hnames.isStatic, hnames.field, ?_⟩
  rw [hnames.field]
  exact hm.mem_fieldNames hx hfound hinstance

section

variable {sources : List LibrarySource} {patience left : Patience} {references : References}
  (hresolve : References.resolve sources patience = .ok (references, left))
  (hwritable : References.Writable sources references)

include hresolve hwritable

/-- The objects of a program that was compiled without errors, exceptions included, keep exactly
their fields, and access to them by bare names never fails, if exceptions have the fields that they
are given. Those of the standard libraries do. -/
theorem fields_kept :
    ((∃ more, sources = .standard :: more) → references.FaultsFit) ∧
    (references.FaultsFit → ∀ name units options,
      (Compilation.ofUnits name units references options).hasErrors = false →
      ∃ h, Hierarchy.load (Compilation.ofUnits name units references options).image references =
          .ok h ∧
        ((Compilation.ofUnits name units references options).image.toPack.isWritable = true →
          ∀ h', Hierarchy.loadBytes (Compilation.ofUnits name units references
            options).image.encode references = .ok h' → h' = h) ∧
        h.KeepsFields ∧
        ∀ x, h.HasClass x → ∀ c : LoweringContext,
          c.table = (Compilation.ofUnits name units references options).model.symbols →
          c.owner.name = h.nameOf x → c.NamesFieldsOf h x) := by
  refine ⟨?_, ?_⟩
  · rintro ⟨more, rfl⟩
    exact References.faultsFit_standard hresolve hwritable
  · intro hfaults name units options hok
    have hstack := References.stack_of_resolve hresolve hwritable
    have hload := Hierarchy.load_image (Compilation.ofUnits name units references options)
    have hmirrors := Compilation.mirrors_of_ok hstack hok hload
    obtain ⟨ds, hmade, -⟩ := Compilation.madeOf_of_ok hok hstack.types_nodup
    have hlayered := Hierarchy.layered_of_stack (h := ⟨references, _⟩) hstack hmade.joins
    -- A class is one of a library or one of the program.
    have hscoped : Hierarchy.Scoped ⟨references, (Compilation.ofUnits name units references
        options).image⟩ := by
      intro t ht
      obtain ⟨l, hl, ht⟩ := List.mem_flatMap.1 ht
      rcases List.mem_append.1 hl with hl | hl
      · exact References.scoped_of_resolve hresolve hwritable l hl t ht
      · obtain rfl := List.mem_singleton.1 hl
        exact Compilation.scoped_of_ok hok t ht
    refine ⟨_, hload, fun himage h hbytes => Hierarchy.load_of_loadBytes himage hbytes, ?_, ?_⟩
    · exact Hierarchy.keepsFields_of hscoped (hfaults _) hlayered.distinct
    · exact fun x hx c htable howner => hmirrors.namesFieldsOf hx htable howner

end

/-! ## A program with fields -/

/-- A library with exceptions. -/
def faultLibrary : String :=
  "type Exception \x7b let Message; \x7d"

def faultSources : List LibrarySource :=
  [.ofList [("System", some (Pack.utf8 faultLibrary))]]

def faultReferences : References :=
  (References.resolveToEnd faultSources).toOption.getD []

/-- An exception of a type of its own, which sets its field and the one that it inherits. -/
def fieldUnits : List SourceUnit :=
  [⟨"M.gen", "type E : Exception \x7b let code = 1; " ++
    "fn init() \x7b code = code + 1; Message = code; \x7d \x7d"⟩]

theorem fields_evaluate :
    (References.resolveToEnd faultSources).isOk = true ∧
      (∀ before ∈ faultReferences.inits, (Compilation.ofUnits "System"
        [⟨"System.gen", faultLibrary⟩] before .referenceLibrary).image.toPack.isWritable = true) ∧
      (∀ l ∈ faultReferences, ∀ t ∈ l.types, t.base = none ∧
        (t.fields.filter (!·.isStatic)).map (·.name) = ["Message"]) ∧
      (Compilation.ofUnits "M" fieldUnits faultReferences .library).hasErrors = false := by
  decide +kernel

theorem fields_kept_fault :
    References.resolve faultSources none = .ok (faultReferences, none) ∧
      References.Writable faultSources faultReferences ∧
      faultReferences.FaultsFit ∧
      (Compilation.ofUnits "M" fieldUnits faultReferences .library).hasErrors = false ∧
      ∃ h, Hierarchy.load (Compilation.ofUnits "M" fieldUnits faultReferences .library).image
        faultReferences = .ok h ∧ h.KeepsFields := by
  obtain ⟨hisOk, hinits, htypes, hok⟩ := fields_evaluate
  have hresolve : References.resolve faultSources none = .ok (faultReferences, none) :=
    References.resolve_of_isOk hisOk
  have hwritable : References.Writable faultSources faultReferences :=
    References.writable_single hinits
  have hfaults : faultReferences.FaultsFit :=
    References.faultsFit_of_system fun l hl _ t ht _ => htypes l hl t ht
  obtain ⟨h, hload, -, hkeeps, -⟩ :=
    (fields_kept hresolve hwritable).2 hfaults "M" fieldUnits .library hok
  exact ⟨hresolve, hwritable, hfaults, hok, h, hload, hkeeps⟩

end GenLang
