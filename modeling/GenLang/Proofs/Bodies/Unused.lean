import Mathlib.Data.List.Nodup
import GenLang.Proofs.Linking.Stages

/-!
# Warnings about unused locals

A local is warned of when its scope is closed, unless it was read before that. As a local is read
only where it is in scope, and every scope is closed, the warnings of a body are about exactly those
of its `let` that are never read; without errors, those are the slots that the code of the body does
not read.
-/

namespace GenLang

open Text

theorem filter_unusedAll (c : LoweringContext) (ps : List (Ident × Nat)) :
    (c.unusedAll ps).filter (·.has .unusedLocal) = c.unusedAll ps := by
  refine Diagnostic.filter_has_eq_self fun d hd => ?_
  obtain ⟨p, -, rfl⟩ := List.mem_map.1 hd
  exact c.sources.codeIn_diagnostic List.mem_cons_self _ _ _

/-- The warnings so far are about the locals that `let` introduced, that are out of scope and that
were not read. -/
structure Warned (c : LoweringContext) (F : Footprint) (s : LoweringState)
    (warned : List (Ident × Nat)) : Prop where
  /-- No slot is in scope twice. -/
  scopes : s.scopes.flatten.Nodup
  inScope : ∀ slot ∈ s.scopes.flatten, slot < s.locals.size
  /-- What `let` introduced is marked among the locals. -/
  locals : ∀ i slot, (i, slot) ∈ F.lets ↔
    ∃ l, s.locals[slot]? = some l ∧ l.warnUnused = true ∧ i = ⟨l.name, l.span⟩
  /-- So is what was read. -/
  used : ∀ slot l, s.locals[slot]? = some l → (l.used = true ↔ slot ∈ F.reads)
  reads : ∀ slot ∈ F.reads, slot < s.locals.size
  slots : (F.lets.map Prod.snd).Nodup
  nodup : warned.Nodup
  /-- A local is warned of when it goes out of scope, and a read comes before that. -/
  mem : ∀ p, p ∈ warned ↔ p ∈ F.lets ∧ p.2 ∉ s.scopes.flatten ∧ p.2 ∉ F.reads
  diagnostics : s.diagnostics.toList.filter (·.has .unusedLocal) = c.unusedAll warned

namespace Warned

variable {c : LoweringContext} {F G : Footprint} {s s' : LoweringState}
  {warned : List (Ident × Nat)}

theorem empty (c : LoweringContext) : Warned c {} {} [] := by
  constructor <;> simp [LoweringContext.unusedAll]

/-- Only what the invariant is about counts. -/
theorem congr (h : Warned c F s warned) (hlets : G.lets = F.lets) (hreads : G.reads = F.reads)
    (hscopes : s'.scopes.flatten = s.scopes.flatten) (hlocals : s'.locals = s.locals)
    (hdiagnostics : s'.diagnostics.toList.filter (·.has .unusedLocal) =
      s.diagnostics.toList.filter (·.has .unusedLocal)) : Warned c G s' warned := by
  constructor
  case scopes => exact hscopes ▸ h.scopes
  case inScope => exact hscopes ▸ hlocals ▸ h.inScope
  case locals => exact hlets ▸ hlocals ▸ h.locals
  case used => exact hreads ▸ hlocals ▸ h.used
  case reads => exact hreads ▸ hlocals ▸ h.reads
  case slots => exact hlets ▸ h.slots
  case nodup => exact h.nodup
  case mem => exact hlets ▸ hscopes ▸ hreads ▸ h.mem
  case diagnostics => exact hdiagnostics.trans h.diagnostics

theorem lt_of_mem_lets (h : Warned c F s warned) {p : Ident × Nat} (hp : p ∈ F.lets) :
    p.2 < s.locals.size := by
  obtain ⟨l, hl, -⟩ := (h.locals p.1 p.2).1 hp
  exact (Array.getElem?_eq_some_iff.1 hl).1

/-- A local that is in scope is read. -/
theorem read (h : Warned c F s warned) {slot : Nat} (hslot : slot ∈ s.scopes.flatten) :
    Warned c (F ++ { reads := [slot] })
      { s with locals := s.locals.modify slot fun l => { l with used := true } } warned := by
  have hget (n : Nat) : (s.locals.modify slot fun l => { l with used := true })[n]? =
      if slot = n then (s.locals[n]?).map fun l => { l with used := true } else s.locals[n]? := by
    rw [Array.getElem?_modify]
  constructor
  case scopes => exact h.scopes
  case inScope =>
    intro n hn
    rw [Array.size_modify]
    exact h.inScope n hn
  case locals =>
    intro i n
    rw [Footprint.lets_append, List.append_nil, h.locals, hget]
    split
    · simp
    · rfl
  case used =>
    intro n l hl
    rw [Footprint.reads_append, List.mem_append, List.mem_singleton]
    dsimp only at hl
    rw [hget] at hl
    split at hl
    · next heq =>
      obtain ⟨l', -, rfl⟩ := Option.map_eq_some_iff.1 hl
      simp [heq]
    · next hne =>
      rw [h.used n l hl, or_iff_left (Ne.symm hne)]
  case reads =>
    intro n hn
    rw [Array.size_modify]
    rcases List.mem_append.1 hn with hn | hn
    · exact h.reads n hn
    · exact h.inScope n (List.mem_singleton.1 hn ▸ hslot)
  case slots =>
    rw [Footprint.lets_append, List.append_nil]
    exact h.slots
  case nodup => exact h.nodup
  case mem =>
    intro p
    rw [Footprint.lets_append, List.append_nil, Footprint.reads_append, List.mem_append,
      List.mem_singleton, h.mem]
    -- what was warned of is not in scope
    have hne : p.2 ∉ s.scopes.flatten → p.2 ≠ slot := fun hout heq => hout (heq ▸ hslot)
    tauto
  case diagnostics => exact h.diagnostics

theorem flatten_extend (hscopes : s.scopes ≠ []) (name : Ident) (warnUnused : Bool) :
    (s.extend name warnUnused).scopes.flatten.Perm (s.locals.size :: s.scopes.flatten) := by
  unfold LoweringState.extend
  cases hs : s.scopes with
  | nil => exact absurd hs hscopes
  | cons scope rest =>
    dsimp only
    rw [List.flatten_cons, List.flatten_cons, List.append_assoc]
    exact List.perm_middle

/-- A new local is in scope. -/
theorem declare (h : Warned c F s warned) (hscopes : s.scopes ≠ []) (name : Ident)
    (warnUnused : Bool) :
    Warned c (F ++ { lets := if warnUnused then [(name, s.locals.size)] else [] })
      (s.extend name warnUnused) warned := by
  have hperm := flatten_extend hscopes name warnUnused
  have hsize : (s.extend name warnUnused).locals.size = s.locals.size + 1 := Array.size_push _
  have hget (n : Nat) : (s.extend name warnUnused).locals[n]? =
      if n = s.locals.size then some ⟨name.name, name.span, false, warnUnused⟩
      else s.locals[n]? := Array.getElem?_push
  have hmem (p : Ident × Nat) : p ∈ (if warnUnused then [(name, s.locals.size)] else []) ↔
      warnUnused = true ∧ p = (name, s.locals.size) := by
    cases warnUnused <;> simp
  -- the new slot is behind all that were in scope, introduced or read
  have hnew (n : Nat) (hn : n < s.locals.size) : n ≠ s.locals.size := Nat.ne_of_lt hn
  constructor
  case scopes =>
    rw [hperm.nodup_iff, List.nodup_cons]
    exact ⟨fun hin => hnew _ (h.inScope _ hin) rfl, h.scopes⟩
  case inScope =>
    intro n hn
    rw [hsize]
    rcases List.mem_cons.1 (hperm.subset hn) with rfl | hn
    · exact Nat.lt_succ_self _
    · exact Nat.lt_succ_of_lt (h.inScope n hn)
  case locals =>
    intro i n
    rw [Footprint.lets_append, List.mem_append, hmem, hget]
    split
    · next heq =>
      subst heq
      have hold : (i, s.locals.size) ∉ F.lets := fun hin => hnew _ (h.lt_of_mem_lets hin) rfl
      simp [hold]
    · next hne => simp [h.locals, hne]
  case used =>
    intro n l hl
    rw [Footprint.reads_append, List.append_nil]
    rw [hget] at hl
    split at hl
    · next heq =>
      cases hl
      have hold : n ∉ F.reads := fun hin => hnew _ (h.reads n hin) heq
      simp [hold]
    · exact h.used n l hl
  case reads =>
    intro n hn
    rw [Footprint.reads_append, List.append_nil] at hn
    rw [hsize]
    exact Nat.lt_succ_of_lt (h.reads n hn)
  case slots =>
    rw [Footprint.lets_append, List.map_append, List.nodup_append]
    refine ⟨h.slots, by cases warnUnused <;> simp, fun n hn n' hn' heq => ?_⟩
    obtain ⟨p, hp, rfl⟩ := List.mem_map.1 hn
    obtain ⟨q, hq, rfl⟩ := List.mem_map.1 hn'
    obtain ⟨-, rfl⟩ := (hmem q).1 hq
    exact hnew _ (h.lt_of_mem_lets hp) heq
  case nodup => exact h.nodup
  case mem =>
    intro p
    rw [Footprint.lets_append, List.mem_append, hmem, Footprint.reads_append, List.append_nil,
      hperm.mem_iff, List.mem_cons, h.mem]
    constructor
    · rintro ⟨hp, hout, hread⟩
      exact ⟨.inl hp, not_or.2 ⟨hnew _ (h.lt_of_mem_lets hp), hout⟩, hread⟩
    · rintro ⟨hp | ⟨-, rfl⟩, hout, hread⟩
      · exact ⟨hp, (not_or.1 hout).2, hread⟩
      · exact absurd rfl (not_or.1 hout).1
  case diagnostics => exact h.diagnostics

/-- What is due when a local goes out of scope. -/
theorem pending?_eq_some (h : Warned c F s warned) {slot : Nat} {p : Ident × Nat} :
    s.pending? slot = some p ↔ p.2 = slot ∧ p ∈ F.lets ∧ slot ∉ F.reads := by
  unfold LoweringState.pending?
  -- A slot without a variable was introduced by no let that is warned of.
  cases hl : s.locals[slot]? with
  | none =>
    constructor
    · rintro ⟨⟩
    · rintro ⟨rfl, hp, -⟩
      obtain ⟨l, hl', -⟩ := (h.locals p.1 p.2).1 hp
      rw [hl] at hl'
      cases hl'
  | some l =>
    have hused := h.used slot l hl
    -- the table of variables and the footprint tell the same of this slot
    have hlets : (p.1, slot) ∈ F.lets ↔ l.warnUnused = true ∧ p.1 = ⟨l.name, l.span⟩ := by
      rw [h.locals, hl]
      simp
    dsimp only
    rw [Option.ite_none_right_eq_some, Option.some_inj]
    constructor
    · rintro ⟨hdue, rfl⟩
      obtain ⟨hwarn, hunused⟩ := Bool.and_eq_true_iff.1 hdue
      refine ⟨rfl, hlets.2 ⟨hwarn, rfl⟩, fun hread => ?_⟩
      rw [hused.2 hread] at hunused
      cases hunused
    · rintro ⟨rfl, hp, hread⟩
      obtain ⟨hwarn, hname⟩ := hlets.1 hp
      have hunused : l.used = false := by simpa [hread] using hused
      exact ⟨by simp [hwarn, hunused], Prod.ext hname.symm rfl⟩

/-- When a scope is closed, its locals that were not read are warned of. -/
theorem close (h : Warned c F s warned) {scope : List Nat} {rest : List (List Nat)}
    (hscopes : s.scopes = scope :: rest) :
    Warned c F (s.close c scope rest) (warned ++ scope.filterMap s.pending?) := by
  have hflatten : s.scopes.flatten = scope ++ rest.flatten := by rw [hscopes, List.flatten_cons]
  have hnodup := h.scopes
  rw [hflatten, List.nodup_append] at hnodup
  -- what this scope warns of: its variables that are never read
  have hmem (p : Ident × Nat) : p ∈ scope.filterMap s.pending? ↔
      p.2 ∈ scope ∧ p ∈ F.lets ∧ p.2 ∉ F.reads := by
    rw [List.mem_filterMap]
    constructor
    · rintro ⟨slot, hslot, hp⟩
      obtain ⟨rfl, hlets, hreads⟩ := h.pending?_eq_some.1 hp
      exact ⟨hslot, hlets, hreads⟩
    · rintro ⟨hslot, hlets, hreads⟩
      exact ⟨p.2, hslot, h.pending?_eq_some.2 ⟨rfl, hlets, hreads⟩⟩
  constructor
  case scopes => exact hnodup.2.1
  case inScope => exact fun n hn => h.inScope n (hflatten ▸ List.mem_append_right _ hn)
  case locals => exact h.locals
  case used => exact h.used
  case reads => exact h.reads
  case slots => exact h.slots
  -- Nothing is warned of twice: what was warned of before is not in scope any more.
  case nodup =>
    rw [List.nodup_append]
    refine ⟨h.nodup, hnodup.1.filterMap fun slot slot' p hp hp' => ?_, fun p hp q hq heq => ?_⟩
    · rw [← (h.pending?_eq_some.1 hp).1, (h.pending?_eq_some.1 hp').1]
    · subst heq
      have hin := ((hmem p).1 hq).1
      exact ((h.mem p).1 hp).2.1 (hflatten ▸ List.mem_append_left _ hin)
  case mem =>
    intro p
    rw [List.mem_append, h.mem, hmem, hflatten, List.mem_append]
    -- no slot is in two scopes, so that what leaves scope here is exactly this scope
    have hdisjoint : p.2 ∈ scope → p.2 ∉ rest.flatten :=
      fun hin hrest => hnodup.2.2 _ hin _ hrest rfl
    change _ ↔ p ∈ F.lets ∧ p.2 ∉ rest.flatten ∧ p.2 ∉ F.reads
    tauto
  case diagnostics =>
    rw [LoweringState.close, LoweringState.note, Array.toList_append, List.filter_append,
      h.diagnostics, filter_unusedAll]
    exact List.map_append.symm

theorem evolves (hevolves : Evolves c s G s') (h : Warned c F s warned) :
    ∃ warned', Warned c (F ++ G) s' warned' := by
  -- the footprint and the warnings so far differ from step to step
  induction hevolves generalizing F warned with
  | refl => exact ⟨warned, F.append_empty.symm ▸ h⟩
  | trans _ _ ih ih' =>
    obtain ⟨warned, h⟩ := ih h
    obtain ⟨warned, h⟩ := ih' h
    exact ⟨warned, F.append_assoc _ _ ▸ h⟩
  | report s hcode span message =>
    refine ⟨warned, h.congr (List.append_nil _) (List.append_nil _) rfl rfl ?_⟩
    have hother := (c.sources.codeIn_diagnostic hcode c.file span message).has_eq_false
      (by decide : Code.unusedLocal ∉ Lowering.codes)
    rw [Array.toList_push, List.filter_append, List.filter_singleton, hother]
    exact List.append_nil _
  | record | loop => exact ⟨warned, h.congr (List.append_nil _) (List.append_nil _) rfl rfl rfl⟩
  | read s hslot => exact ⟨warned, h.read hslot⟩
  | declare s hscopes name warnUnused => exact ⟨warned, h.declare hscopes name warnUnused⟩
  | scope _ hscopes ih =>
    obtain ⟨warned, h⟩ := ih (h.congr rfl rfl rfl rfl rfl)
    exact ⟨_, h.close hscopes⟩

end Warned

/-! ## Members -/

/-- The names that `let` introduces in a method and whose slots the code of the method does not
read. -/
def MethodDecl.unusedLets (m : MethodDecl) (f : MethodDef) : List Ident :=
  ((m.lets.zip f.lets).filter fun p => p.2 ∉ f.reads).map Prod.fst

/-- A method has a slot of its own for each `let`. -/
structure MethodDecl.SlotsFor (m : MethodDecl) (f : MethodDef) : Prop where
  name : f.name = m.name.name
  length : m.lets.length = f.lets.length
  nodup : f.lets.Nodup

namespace Lowering

variable {c : LoweringContext}

/-- The warnings of a member are about the locals that `let` introduces and that are not read. -/
theorem Notes.Tell.unused {n : Notes} {F : Footprint} {s : LoweringState} (h : n.Tell c F s) :
    (F.lets.map Prod.snd).Nodup ∧ (n.diagnostics.filter (·.has .unusedLocal)).Perm
      (c.unusedAll (F.lets.filter fun p => p.2 ∉ F.reads)) := by
  obtain ⟨warned, hwarned⟩ := Warned.evolves h.evolves (Warned.empty c)
  rw [Footprint.empty_append] at hwarned
  refine ⟨hwarned.slots, ?_⟩
  rw [h.diagnostics, hwarned.diagnostics]
  refine List.Perm.map _ ((List.perm_ext_iff_of_nodup hwarned.nodup ?_).2 fun p => ?_)
  · exact (List.Nodup.of_map _ hwarned.slots).filter _
  · -- no scope is open at the end of a member
    rw [hwarned.mem, h.scopes, List.mem_filter, List.flatten_nil]
    simp

theorem Notes.Tell.failed_eq_false {n : Notes} {F : Footprint} {s : LoweringState}
    (h : n.Tell c F s) (hclean : n.Clean) : F.failed = false := by
  obtain ⟨new, hnew, -, herror⟩ := h.evolves.diagnostics
  by_contra hfailed
  obtain ⟨d, hd, hdiag⟩ := herror (Bool.eq_true_of_not_eq_false hfailed)
  have hmem : d ∈ n.diagnostics := by
    rw [h.diagnostics, hnew]
    exact List.mem_append_right _ hd
  rw [hclean d hmem] at hdiag
  cases hdiag

theorem unused_method (m : MethodDecl) (hclean : (member c (method m)).2.Clean) :
    m.SlotsFor (member c (method m)).1 ∧
      ((member c (method m)).2.diagnostics.filter (·.has .unusedLocal)).Perm
        ((m.unusedLets (member c (method m)).1).map (c.sources.unused c.file)) := by
  obtain ⟨F, s, htell, htraces⟩ := tell_method (c := c) m
  obtain ⟨hnodup, hperm⟩ := htell.unused
  have hreads := htraces.reads (htell.failed_eq_false hclean)
  have hzip : F.lets = m.lets.zip (member c (method m)).1.lets :=
    List.zip_of_prod htraces.names htraces.slots
  refine ⟨⟨rfl, ?_, htraces.slots ▸ hnodup⟩, ?_⟩
  · rw [← htraces.names, ← htraces.slots, List.length_map, List.length_map]
  · rw [MethodDecl.unusedLets, ← hzip, ← hreads, List.map_map]
    exact hperm

theorem unused_field (f : FieldDecl) :
    (member c (field f)).2.diagnostics.filter (·.has .unusedLocal) = [] := by
  obtain ⟨F, s, htell, -, hlets⟩ := tell_field (c := c) f
  have hperm := htell.unused.2
  rw [hlets] at hperm
  exact List.perm_nil.1 hperm

end Lowering

/-- The warnings about unused locals of a declaration that becomes a type. -/
def Declaration.unusedLocals (sources : Sources) (d : Declaration) (t : TypeDef) :
    List Diagnostic :=
  (d.decl.methods.zip t.methods).flatMap fun p =>
    (p.1.unusedLets p.2).map (sources.unused d.file)

/-- A declaration becomes a type whose methods have a slot for each of their `let`. -/
structure Declaration.SlotsFor (d : Declaration) (t : TypeDef) : Prop where
  name : t.name = d.decl.name.name
  methods : List.Forall₂ MethodDecl.SlotsFor d.decl.methods t.methods

namespace Lowering

variable {sources : Sources} {table : SymbolTable}

theorem unused_type {d : Declaration} (hclean : (type sources table d.symbol d).2.Clean) :
    d.SlotsFor (type sources table d.symbol d).1 ∧
      ((type sources table d.symbol d).2.diagnostics.filter (·.has .unusedLocal)).Perm
        (d.unusedLocals sources (type sources table d.symbol d).1) := by
  obtain ⟨-, hmethods⟩ := clean_append hclean
  rw [members_eq] at hmethods
  have hmethod (m : MethodDecl) (hm : m ∈ d.decl.methods) :=
    unused_method (c := memberContext sources table d m.name m.isStatic) m fun x hx =>
      hmethods x (List.mem_flatMap.2 ⟨m, hm, hx⟩)
  -- initialisers of fields introduce no variable
  have hfields : d.decl.fields.flatMap (fun f => (member (memberContext sources table d f.name
      f.isStatic) (field f)).2.diagnostics.filter (·.has .unusedLocal)) = [] :=
    List.flatMap_eq_nil_iff.2 fun f _ => unused_field f
  simp only [memberContext] at hfields
  simp only [type, members_eq, Notes.append, List.filter_append, List.filter_flatMap, hfields,
    List.nil_append]
  refine ⟨⟨rfl, ?_⟩, ?_⟩
  · rw [List.forall₂_map_right_iff, List.forall₂_same]
    exact fun m hm => (hmethod m hm).1
  · rw [Declaration.unusedLocals]
    dsimp only
    rw [← List.map_prod_left_eq_zip, List.flatMap_map]
    exact List.Perm.flatMap_left _ fun m hm => (hmethod m hm).2

end Lowering

/-! ## Compilations -/

namespace Compilation

variable {name : String} {units : List SourceUnit} {references : List Image}
  {options : CompileOptions}

/-- If there are no errors, a local is warned of exactly if it is one that `let` introduces and the
code of the method does not read its slot: every declaration becomes a type, every method has a slot
of its own for each `let`, and there is one warning for each of these that is not read, and no
other. -/
theorem unusedLocals_reported
    (h : (ofUnits name units references options).hasErrors = false) :
    List.Forall₂ Declaration.SlotsFor (units.flatMap SourceUnit.declarations)
        (ofUnits name units references options).types ∧
      ((ofUnits name units references options).diagnostics.filter (·.has .unusedLocal)).Perm
        (((units.flatMap SourceUnit.declarations).zip
          (ofUnits name units references options).types).flatMap fun p =>
            p.1.unusedLocals ⟨units⟩ p.2) := by
  have hnotes := clean_of_ok h
  have htypes : (ofUnits name units references options).types =
      (Lowering.types ⟨units⟩ (entered units references).1 (accepted units references)).1 := rfl
  rw [filter_unusedLocal, htypes]
  rw [Lowering.types_eq fun d hd => find?_accepted hd] at hnotes ⊢
  rw [Lowering.members_eq] at hnotes ⊢
  rw [← declarations_parseUnits ⟨units⟩, ← accepted_of_ok h]
  have htype (d : Declaration) (hd : d ∈ accepted units references) :=
    Lowering.unused_type (d := d) fun x hx => hnotes x (List.mem_flatMap.2 ⟨d, hd, hx⟩)
  refine ⟨?_, ?_⟩
  · rw [List.forall₂_map_right_iff, List.forall₂_same]
    exact fun d hd => (htype d hd).1
  · rw [List.filter_flatMap, ← List.map_prod_left_eq_zip, List.flatMap_map]
    exact List.Perm.flatMap_left _ fun d hd => (htype d hd).2

/-- Locals of every kind: two of those that `let` introduces are not read, one of them though it is
assigned to. -/
def idleUnits : List SourceUnit :=
  [⟨"A.gen", "type A { fn M(p) { let x = 1; let y = x; if (x) { y = 2; let z; } } }"⟩,
   ⟨"B.gen", "type B { fn M(p) { for i in [] { } try { } catch (e) { } } }"⟩]

theorem unusedLocals_reported_idle :
    ((ofUnits "M" idleUnits [] .library).hasErrors = false ∧
      (ofUnits "M" idleUnits [] .library).diagnostics.map (·.message) =
        ["The variable 'z' is declared but never used",
         "The variable 'y' is declared but never used"]) ∧
      List.Forall₂ Declaration.SlotsFor (idleUnits.flatMap SourceUnit.declarations)
        (ofUnits "M" idleUnits [] .library).types ∧
      ((ofUnits "M" idleUnits [] .library).diagnostics.filter (·.has .unusedLocal)).Perm
        (((idleUnits.flatMap SourceUnit.declarations).zip
          (ofUnits "M" idleUnits [] .library).types).flatMap fun p =>
            p.1.unusedLocals ⟨idleUnits⟩ p.2) := by
  have hok : (ofUnits "M" idleUnits [] .library).hasErrors = false ∧
      (ofUnits "M" idleUnits [] .library).diagnostics.map (·.message) =
        ["The variable 'z' is declared but never used",
         "The variable 'y' is declared but never used"] := by
    decide +kernel
  exact ⟨hok, unusedLocals_reported hok.1⟩

end Compilation

end GenLang
