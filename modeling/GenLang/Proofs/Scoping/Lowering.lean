import GenLang.Proofs.Linking.Lowering
import GenLang.Proofs.Scoping.Region

/-!
# Lowered code is well scoped

Slots come from a list of locals that only grows, and what is in scope from a stack of scopes.
Lowering an expression changes neither; a statement adds the slots that it introduces, in the order
of the text, and leaves the scopes as they were, but for a local that it declares in the innermost
one. Any region that covers what is in scope then allows all that is lowered there.
-/

namespace GenLang

open Text

/-- What scoping is about in a state. -/
structure Shape where
  /-- Slots in scope, innermost scope first. -/
  scopes : List (List Nat)
  /-- Number of locals. -/
  size : Nat
  loopDepth : Nat

def LoweringState.shape (s : LoweringState) : Shape :=
  ⟨s.scopes, s.locals.size, s.loopDepth⟩

namespace Shape

def push (σ : Shape) : Shape :=
  { σ with scopes := [] :: σ.scopes }

def pop (σ : Shape) : Shape :=
  { σ with scopes := σ.scopes.tail }

/-- The next slot comes into the innermost scope. -/
def declare (σ : Shape) : Shape :=
  { σ with
    size := σ.size + 1
    scopes :=
      match σ.scopes with
      | scope :: rest => (scope ++ [σ.size]) :: rest
      | [] => [] }

def enterLoop (σ : Shape) : Shape :=
  { σ with loopDepth := σ.loopDepth + 1 }

def leaveLoop (σ : Shape) : Shape :=
  { σ with loopDepth := σ.loopDepth - 1 }

/-- Some slots are introduced, and no scope but the innermost is changed. -/
structure Grows (σ σ' : Shape) (slots : List Nat) : Prop where
  outer : σ'.scopes.tail = σ.scopes.tail
  loopDepth : σ'.loopDepth = σ.loopDepth
  slots : List.range σ.size ++ slots = List.range σ'.size

theorem Grows.refl (σ : Shape) : σ.Grows σ [] :=
  ⟨rfl, rfl, List.append_nil _⟩

theorem Grows.trans {σ τ υ : Shape} {slots others : List Nat} (h : σ.Grows τ slots)
    (h' : τ.Grows υ others) : σ.Grows υ (slots ++ others) :=
  ⟨h'.outer.trans h.outer, h'.loopDepth.trans h.loopDepth,
    by rw [← List.append_assoc, h.slots, h'.slots]⟩

theorem Grows.declare (σ : Shape) : σ.Grows σ.declare [σ.size] := by
  refine ⟨?_, rfl, List.range_succ.symm⟩
  unfold Shape.declare
  cases σ.scopes <;> rfl

/-- A scope of its own is gone again. -/
theorem Grows.pop {σ τ : Shape} {slots : List Nat} (h : σ.push.Grows τ slots) :
    σ.Grows τ.pop slots ∧ τ.pop.scopes = σ.scopes :=
  ⟨⟨congrArg List.tail h.outer, h.loopDepth, h.slots⟩, h.outer⟩

theorem Grows.leaveLoop {σ τ : Shape} {slots : List Nat} (h : σ.enterLoop.Grows τ slots) :
    σ.Grows τ.leaveLoop slots :=
  ⟨h.outer, by rw [Shape.leaveLoop, h.loopDepth, Shape.enterLoop, Nat.add_sub_cancel], h.slots⟩

end Shape

/-- A region allows all that may be lowered in a state. -/
structure Region.Covers (r : Region) (c : LoweringContext) (σ : Shape) : Prop where
  slots : σ.scopes.flatten ⊆ r.slots
  inLoop : σ.loopDepth ≠ 0 → r.inLoop
  hasSelf : c.isStatic = false → r.hasSelf

namespace Region.Covers

variable {r : Region} {c : LoweringContext} {σ : Shape}

theorem push (h : r.Covers c σ) : r.Covers c σ.push :=
  ⟨h.slots, h.inLoop, h.hasSelf⟩

theorem declare (h : r.Covers c σ) : (r.extend σ.size).Covers c σ.declare := by
  refine ⟨fun slot hslot => ?_, h.inLoop, h.hasSelf⟩
  unfold Shape.declare at hslot
  cases hscopes : σ.scopes with
  | nil =>
    rw [hscopes] at hslot
    cases hslot
  | cons scope rest =>
    rw [hscopes] at hslot
    have hrest : scope ++ rest.flatten ⊆ r.slots := by
      have hslots := h.slots
      rwa [hscopes] at hslots
    simp only [List.flatten_cons, List.append_assoc, List.singleton_append, List.mem_append,
      List.mem_cons] at hslot
    rcases hslot with hslot | rfl | hslot
    · exact List.mem_cons_of_mem _ (hrest (List.mem_append_left _ hslot))
    · exact List.mem_cons_self
    · exact List.mem_cons_of_mem _ (hrest (List.mem_append_right _ hslot))

theorem enterLoop (h : r.Covers c σ) : r.loop.Covers c σ.enterLoop :=
  ⟨h.slots, fun _ => rfl, h.hasSelf⟩

/-- What is in scope and the loops around are all that counts. -/
theorem of_scopes {σ' : Shape} (h : r.Covers c σ) (hscopes : σ'.scopes = σ.scopes)
    (hdepth : σ'.loopDepth = σ.loopDepth) : r.Covers c σ' :=
  ⟨hscopes ▸ h.slots, hdepth ▸ h.inLoop, h.hasSelf⟩

end Region.Covers

namespace Lowering

variable {α β : Type} {c : LoweringContext}

/-! ## Runs that report no error -/

/-- If no error is reported, none was before, and the run moves from state to state as wanted. -/
def Moves (c : LoweringContext) (x : Lowering α) (P : LoweringState → α → LoweringState → Prop) :
    Prop :=
  ∀ s a s', (x.run c).run s = (a, s') → s'.Clean → s.Clean ∧ P s a s'

/-- The same where only shapes count. -/
def Leads (c : LoweringContext) (x : Lowering α) (P : Shape → α → Shape → Prop) : Prop :=
  Moves c x fun s a s' => P s.shape a s'.shape

/-- The shape is as before. -/
def Reads (c : LoweringContext) (x : Lowering α) (P : Shape → α → Prop) : Prop :=
  Leads c x fun σ a σ' => σ' = σ ∧ P σ a

theorem Moves.imp {x : Lowering α} {P Q : LoweringState → α → LoweringState → Prop}
    (h : Moves c x P) (hPQ : ∀ s a s', P s a s' → Q s a s') : Moves c x Q := by
  intro s a s' hrun hclean
  obtain ⟨hs, ha⟩ := h s a s' hrun hclean
  exact ⟨hs, hPQ _ _ _ ha⟩

theorem Leads.imp {x : Lowering α} {P Q : Shape → α → Shape → Prop} (h : Leads c x P)
    (hPQ : ∀ σ a σ', P σ a σ' → Q σ a σ') : Leads c x Q :=
  Moves.imp h fun _ _ _ => hPQ _ _ _

theorem Reads.imp {x : Lowering α} {P Q : Shape → α → Prop} (h : Reads c x P)
    (hPQ : ∀ σ a, P σ a → Q σ a) : Reads c x Q :=
  Leads.imp h fun σ a _ h => ⟨h.1, hPQ σ a h.2⟩

/-- What the run is, too. -/
theorem Moves.self {x : Lowering α} {P : LoweringState → α → LoweringState → Prop}
    (h : Moves c x P) : Moves c x fun s a s' => P s a s' ∧ (x.run c).run s = (a, s') := by
  intro s a s' hrun hclean
  obtain ⟨hs, ha⟩ := h s a s' hrun hclean
  exact ⟨hs, ha, hrun⟩

theorem moves_pure {P : LoweringState → α → LoweringState → Prop} {a : α} (h : ∀ s, P s a s) :
    Moves c (pure a) P := by
  rintro s _ _ ⟨⟩ hclean
  exact ⟨hclean, h _⟩

theorem leads_pure {P : Shape → α → Shape → Prop} {a : α} (h : ∀ σ, P σ a σ) :
    Leads c (pure a) P :=
  moves_pure fun s => h s.shape

theorem moves_bind {x : Lowering α} {f : α → Lowering β}
    {P : LoweringState → α → LoweringState → Prop} {Q : LoweringState → β → LoweringState → Prop}
    (hx : Moves c x P) (hf : ∀ a, Moves c (f a) fun t b s' => ∀ s, P s a t → Q s b s') :
    Moves c (x >>= f) Q := by
  intro s b s' h hclean
  obtain ⟨a, t, hrun, hrest⟩ := exists_of_run_bind h
  obtain ⟨ht, hb⟩ := hf a t b s' hrest hclean
  obtain ⟨hs, ha⟩ := hx s a t hrun ht
  exact ⟨hs, hb _ ha⟩

theorem leads_bind {x : Lowering α} {f : α → Lowering β} {P : Shape → α → Shape → Prop}
    {Q : Shape → β → Shape → Prop} (hx : Leads c x P)
    (hf : ∀ a, Leads c (f a) fun τ b σ' => ∀ σ, P σ a τ → Q σ b σ') : Leads c (x >>= f) Q :=
  moves_bind hx fun a => Moves.imp (hf a) fun _ _ _ h s => h s.shape

/-- What only reads comes before something else. -/
theorem leads_bind_reads {x : Lowering α} {f : α → Lowering β} {P : Shape → α → Prop}
    {Q : Shape → β → Shape → Prop} (hx : Reads c x P)
    (hf : ∀ a, Leads c (f a) fun σ b σ' => P σ a → Q σ b σ') : Leads c (x >>= f) Q := by
  refine leads_bind hx fun a => (hf a).imp fun τ b σ' h σ => ?_
  rintro ⟨rfl, ha⟩
  exact h ha

theorem reads_pure {P : Shape → α → Prop} {a : α} (h : ∀ σ, P σ a) : Reads c (pure a) P :=
  leads_pure fun σ => ⟨rfl, h σ⟩

theorem reads_bind {x : Lowering α} {f : α → Lowering β} {P : Shape → α → Prop}
    {Q : Shape → β → Prop} (hx : Reads c x P) (hf : ∀ a, Reads c (f a) fun σ b => P σ a → Q σ b) :
    Reads c (x >>= f) Q :=
  leads_bind_reads hx fun a => Leads.imp (hf a) fun _ _ _ h ha => ⟨h.1, h.2 ha⟩

theorem reads_read : Reads c read fun _ c' => c' = c := by
  rintro s _ _ ⟨⟩ hclean
  exact ⟨hclean, rfl, rfl⟩

theorem reads_get : Reads c get fun σ s => s.shape = σ := by
  rintro s _ _ ⟨⟩ hclean
  exact ⟨hclean, rfl, rfl⟩

theorem leads_modify {f : LoweringState → LoweringState} {g : Shape → Shape}
    (hf : ∀ s, (f s).Clean → s.Clean) (hg : ∀ s, (f s).shape = g s.shape) :
    Leads c (modify f) fun σ _ σ' => σ' = g σ := by
  rintro s _ _ ⟨⟩ hclean
  exact ⟨hf s hclean, hg s⟩

theorem reads_modify {f : LoweringState → LoweringState} (hf : ∀ s, (f s).Clean → s.Clean)
    (hshape : ∀ s, (f s).shape = s.shape) : Reads c (modify f) fun _ _ => True :=
  (leads_modify hf hshape).imp fun _ _ _ h => ⟨h, trivial⟩

theorem reads_report (code : Code) (span : Span) (message : String) :
    Reads c (report code span message) fun _ _ => code.severity ≠ .error := by
  intro s a s' h hclean
  obtain ⟨hs, hcode⟩ := ensures_report code span message s a s' h hclean
  cases h
  exact ⟨hs, rfl, hcode⟩

/-- Behind an error everything is as wanted. -/
theorem reads_error {code : Code} (hcode : code.severity = .error) (span : Span)
    (message : String) : Reads c (report code span message) fun _ _ => False :=
  (reads_report code span message).imp fun _ _ h => h hcode

theorem reads_error_pure {x : Lowering β} (hx : Reads c x fun _ _ => False) {a : α}
    {P : Shape → α → Prop} : Reads c (x >>= fun _ => pure a) P :=
  reads_bind hx fun _ => reads_pure fun _ => False.elim

theorem reads_forM {f : α → Lowering Unit} (h : ∀ a, Reads c (f a) fun _ _ => True)
    (as : List α) : Reads c (as.forM f) fun _ _ => True := by
  induction as with
  | nil => exact reads_pure fun _ => trivial
  | cons a as ih => exact reads_bind (h a) fun _ => ih.imp fun _ _ _ _ => trivial

/-! ## Scopes -/

theorem mem_flatten_of_lookup {s : LoweringState} {name : String} {slot : Nat}
    (h : s.lookup name = some slot) : slot ∈ s.scopes.flatten := by
  obtain ⟨scope, hscope, hslot⟩ := List.mem_flatMap.1 (List.mem_of_find?_eq_some h)
  exact List.mem_flatten.2 ⟨scope, hscope, List.mem_reverse.1 hslot⟩

theorem reads_lookup (name : String) :
    Reads c (lookup name) fun σ slot => ∀ n ∈ slot, n ∈ σ.scopes.flatten := by
  refine reads_bind reads_get fun s => reads_pure fun σ hs n hn => ?_
  subst hs
  exact mem_flatten_of_lookup hn

theorem reads_lineOf (span : Span) : Reads c (lineOf span) fun _ _ => True :=
  reads_bind reads_read fun _ => reads_pure fun _ _ => trivial

theorem reads_reportUnused (slot : Nat) : Reads c (reportUnused slot) fun _ _ => True := by
  refine reads_bind reads_get fun s => ?_
  split
  · split
    · exact (reads_report _ _ _).imp fun _ _ _ _ => trivial
    · exact reads_pure fun _ _ => trivial
  · exact reads_pure fun _ _ => trivial

theorem leads_popScope : Leads c popScope fun σ _ σ' => σ' = σ.pop := by
  refine leads_bind_reads reads_get fun s => ?_
  split
  · next hscopes =>
    refine leads_pure fun σ hs => ?_
    subst hs
    rw [Shape.pop, LoweringState.shape, hscopes, List.tail_nil]
  · next scope rest hscopes =>
    have hpop : Leads c (modify fun t => { t with scopes := rest }) fun σ _ σ' =>
        σ' = { σ with scopes := rest } :=
      leads_modify (fun _ h => h) fun _ => rfl
    refine leads_bind hpop fun _ => ?_
    refine Leads.imp (reads_forM reads_reportUnused scope) ?_
    rintro τ - σ' ⟨rfl, -⟩ σ rfl hs
    subst hs
    rw [Shape.pop, LoweringState.shape, hscopes, List.tail_cons]

theorem moves_inScope {body : Lowering α} {P : LoweringState → α → LoweringState → Prop}
    (h : Moves c body P) :
    Moves c (inScope body) fun s a s' =>
      ∃ t, P { s with scopes := [] :: s.scopes } a t ∧ s'.shape = t.shape.pop := by
  have hpush : Moves c pushScope fun s _ s' => s' = { s with scopes := [] :: s.scopes } := by
    rintro s _ _ ⟨⟩ hclean
    exact ⟨hclean, rfl⟩
  refine moves_bind hpush fun _ => moves_bind h fun a => moves_bind leads_popScope fun _ => ?_
  refine moves_pure fun s' t hpop s₁ hbody s hs => ?_
  subst hs
  exact ⟨t, hbody, hpop⟩

theorem leads_inScope {body : Lowering α} {P : Shape → α → Shape → Prop} (h : Leads c body P) :
    Leads c (inScope body) fun σ a σ' => ∃ τ, P σ.push a τ ∧ σ' = τ.pop :=
  (moves_inScope h).imp fun _ _ _ ⟨t, hbody, hpop⟩ => ⟨t.shape, hbody, hpop⟩

theorem reads_inScope {body : Lowering α} {P : Shape → α → Prop} (h : Reads c body P) :
    Reads c (inScope body) fun σ a => P σ.push a := by
  refine (leads_inScope h).imp fun σ a σ' => ?_
  rintro ⟨τ, ⟨rfl, ha⟩, rfl⟩
  exact ⟨rfl, ha⟩

/-- No local of the name is in scope, and the new one gets the next slot. -/
theorem moves_declare (name : Ident) (warnUnused : Bool) :
    Moves c (declare name warnUnused) fun s slot s' =>
      s.lookup name.name = none ∧ slot = s.locals.size ∧ s'.shape = s.shape.declare ∧
        s'.locals = s.locals.push ⟨name.name, name.span, false, warnUnused⟩ := by
  have hlookup : Moves c (lookup name.name) fun s found s' =>
      s' = s ∧ found = s.lookup name.name := by
    rintro s _ _ ⟨⟩ hclean
    exact ⟨hclean, rfl, rfl⟩
  refine moves_bind hlookup fun found => ?_
  split
  · -- A local of the name would be reported.
    refine moves_bind (reads_error rfl _ _) fun _ => ?_
    rintro s _ _ ⟨⟩ hclean
    refine ⟨hclean, ?_⟩
    rintro _ ⟨_, ⟨⟩⟩
  · next hfound =>
    rintro s _ _ ⟨⟩ hclean
    refine ⟨hclean, ?_⟩
    rintro _ ⟨rfl, rfl⟩
    exact ⟨by simpa using hfound, rfl, congrArg (Shape.mk _ · _) (Array.size_push _), rfl⟩

theorem leads_declare (name : Ident) (warnUnused : Bool) :
    Leads c (declare name warnUnused) fun σ slot σ' => slot = σ.size ∧ σ' = σ.declare :=
  (moves_declare name warnUnused).imp fun _ _ _ h => ⟨h.2.1, h.2.2.1⟩

theorem reads_markUsed (slot : Nat) : Reads c (markUsed slot) fun _ _ => True := by
  refine reads_modify (fun _ h => h) fun s => ?_
  exact congrArg (Shape.mk _ · _) Array.size_modify

/-! ## Names -/

/-- All regions that cover what is in scope allow an expression. -/
def Fits (c : LoweringContext) (σ : Shape) (e : Image.Expr) : Prop :=
  ∀ r : Region, r.Covers c σ → e.WellScoped r

def FitsAll (c : LoweringContext) (σ : Shape) (es : List Image.Expr) : Prop :=
  ∀ r : Region, r.Covers c σ → Image.Expr.WellScopedAll r es

/-- A name stands for a local in scope, for a field of the receiver if there is one, or for
something that needs neither. -/
def Resolved.Fits (c : LoweringContext) (σ : Shape) : Resolved → Prop
  | slot n => n ∈ σ.scopes.flatten
  | instanceField _ => c.isStatic = false
  | staticField _ _ | type _ => True

theorem reads_resolve (name : String) (span : Span) :
    Reads c (resolve name span) fun σ r => ∃ x, r = some x ∧ x.Fits c σ := by
  refine reads_bind reads_read fun c' => reads_bind (reads_lookup name) fun slot => ?_
  cases slot with
  | some slot => exact reads_pure fun σ hslot _ => ⟨_, rfl, hslot slot rfl⟩
  | none =>
    dsimp only
    split
    · split
      · exact reads_pure fun σ _ _ => ⟨_, rfl, trivial⟩
      · split
        · exact reads_error_pure (reads_error rfl _ _)
        · next hstatic =>
          refine reads_pure fun σ _ hc => ⟨_, rfl, ?_⟩
          subst hc
          exact Bool.eq_false_iff.2 hstatic
    · exact reads_error_pure (reads_error rfl _ _)
    · split
      · exact reads_pure fun σ _ _ => ⟨_, rfl, trivial⟩
      · exact reads_error_pure (reads_error rfl _ _)

theorem reads_isFree (name : String) : Reads c (isFree name) fun _ _ => True :=
  reads_bind reads_read fun _ => reads_bind (reads_lookup name) fun _ =>
    reads_pure fun _ _ _ => trivial

/-- What is in front of a dot fits, if it is a value. -/
def Receiver.Fits (c : LoweringContext) (σ : Shape) : Receiver → Prop
  | type _ => True
  | value e => Lowering.Fits c σ e
  | unresolved => False

theorem reads_receiver {e : Expr} {value : Lowering Image.Expr} (h : Reads c value (Fits c)) :
    Reads c (receiver e value) fun σ r => r.Fits c σ := by
  have hvalue : Reads c (do return Receiver.value (← value)) fun σ r => r.Fits c σ :=
    reads_bind h fun v => reads_pure fun σ hv => hv
  unfold receiver
  split
  · next span name =>
    refine reads_bind (reads_isFree name) fun free => ?_
    cases free with
    | false => exact hvalue.imp fun _ _ h _ => h
    | true =>
      refine reads_bind reads_read fun c' => ?_
      split
      · exact reads_pure fun _ _ _ => trivial
      · exact reads_error_pure (reads_error rfl _ _)
  · exact hvalue

/-! ## Calls -/

theorem reads_calledType (target : Expr) : Reads c (calledType target) fun _ _ => True := by
  unfold calledType
  split
  · refine reads_bind (reads_isFree _) fun free => ?_
    cases free <;> exact reads_pure fun _ _ => trivial
  · exact reads_bind reads_read fun _ => reads_pure fun _ _ => trivial
  · exact reads_pure fun _ => trivial

theorem reads_recordInvocation (typeName : Option String) (method : String) (args : List Expr)
    (span : Span) : Reads c (recordInvocation typeName method args span) fun _ _ => True := by
  refine reads_bind reads_read fun c' => reads_bind (reads_lineOf span) fun line => ?_
  refine Reads.imp (P := fun _ _ => True) ?_ fun _ _ _ _ _ => trivial
  exact reads_modify (fun _ h => h) fun _ => rfl

theorem reads_checkArity (m : MethodSymbol) (count : Nat) (span : Span) :
    Reads c (checkArity m count span) fun _ _ => True := by
  unfold checkArity
  split
  · exact reads_pure fun _ => trivial
  · exact (reads_report _ _ _).imp fun _ _ _ => trivial

theorem reads_staticRead (t : TypeSymbol) (name : Ident) :
    Reads c (staticRead t name) (Fits c) := by
  refine reads_bind reads_read fun c' => ?_
  split
  · split
    · exact reads_pure fun _ _ _ _ => trivial
    · exact reads_error_pure (reads_error rfl _ _)
  · split <;> exact reads_error_pure (reads_error rfl _ _)
  · exact reads_error_pure (reads_error rfl _ _)

section

variable {args : List Image.Expr}

theorem reads_staticCall (t : TypeSymbol) (name : Ident) :
    Reads c (staticCall t name args) fun σ e => FitsAll c σ args → Fits c σ e := by
  refine reads_bind reads_read fun c' => ?_
  split
  · split
    · exact reads_bind (reads_checkArity _ _ _) fun _ => reads_pure fun _ _ _ hargs => hargs
    · exact reads_error_pure (reads_error rfl _ _)
  · exact reads_error_pure (reads_error rfl _ _)

theorem reads_ownCall (name : String) (span : Span) :
    Reads c (ownCall name span args) fun σ e => FitsAll c σ args → Fits c σ e := by
  refine reads_bind reads_read fun c' => reads_bind (reads_lookup name) fun slot => ?_
  split
  · exact reads_error_pure (reads_error rfl _ _)
  split
  · exact reads_error_pure (reads_error rfl _ _)
  · refine reads_bind (reads_checkArity _ _ _) fun _ => ?_
    split
    · exact reads_pure fun _ _ _ _ hargs => hargs
    · split
      · exact reads_error_pure (reads_error rfl _ _)
      · next hstatic =>
        -- The receiver is the one of the method itself.
        refine reads_pure fun σ _ _ hc hargs r hr => ?_
        subst hc
        exact ⟨hr.hasSelf (Bool.eq_false_iff.2 hstatic), hargs r hr⟩

theorem reads_newObject (type : Ident) :
    Reads c (newObject type args) fun σ e => FitsAll c σ args → Fits c σ e := by
  refine reads_bind reads_read fun c' => ?_
  dsimp only
  split
  · exact reads_error_pure (reads_error rfl _ _)
  · next t _ =>
    have hchecked (fits : Bool) (message : String) :
        Reads c (do
          if !fits then report .argumentCount type.span message
          return Image.Expr.new t.ref args) fun σ e => c' = c →
            FitsAll c σ args → Fits c σ e := by
      cases fits
      · exact reads_error_pure (reads_error rfl _ _)
      · exact reads_pure fun _ _ hargs => hargs
    split
    · exact reads_error_pure (reads_error rfl _ _)
    · exact hchecked _ _

end

/-! ## Expressions -/

theorem reads_name (span : Span) (name : String) : Reads c (expr (.name span name)) (Fits c) := by
  rw [expr]
  refine reads_bind (reads_resolve name span) fun r => ?_
  rcases r with _ | r
  · exact reads_pure fun _ ⟨_, h, _⟩ => nomatch h
  · cases r with
    | slot slot =>
      refine reads_bind (reads_markUsed slot) fun _ => reads_pure fun σ _ ⟨_, h, hfits⟩ r hr => ?_
      cases h
      exact hr.slots hfits
    | staticField owner name => exact reads_pure fun _ _ _ _ => trivial
    | instanceField name =>
      refine reads_pure fun σ ⟨_, h, hfits⟩ r hr => ?_
      cases h
      exact hr.hasSelf hfits
    | type t => exact reads_pure fun _ _ _ _ => trivial

theorem reads_memberCall {target : Expr} {args : List Expr} (span memberSpan : Span) (name : Ident)
    (htarget : Reads c (expr target) (Fits c)) (hargs : Reads c (exprs args) (FitsAll c)) :
    Reads c (expr (.call span (.member memberSpan target name) args)) (Fits c) := by
  rw [expr]
  refine reads_bind (reads_calledType target) fun _ => ?_
  refine reads_bind (reads_recordInvocation _ _ args span) fun _ => ?_
  refine reads_bind (reads_receiver htarget) fun r => ?_
  refine reads_bind hargs fun es => ?_
  cases r with
  | type t => exact (reads_staticCall t name).imp fun _ _ h hes _ _ _ => h hes
  | value target => exact reads_pure fun _ hes he _ _ r hr => ⟨he r hr, hes r hr⟩
  | unresolved => exact reads_pure fun _ _ h => h.elim

mutual

theorem reads_expr : ∀ e : Expr, Reads c (expr e) (Fits c)
  | .lit _ value => by
    rw [expr]
    exact reads_pure fun _ _ _ => trivial
  | .name span name => reads_name span name
  | .self span => by
    rw [expr]
    refine reads_bind reads_read fun c' => ?_
    split
    · exact reads_error_pure (reads_error rfl _ _)
    · next hstatic =>
      refine reads_pure fun σ hc r hr => ?_
      subst hc
      exact hr.hasSelf (Bool.eq_false_iff.2 hstatic)
  | .list _ items => by
    rw [expr]
    exact reads_bind (reads_exprs items) fun es => reads_pure fun _ hes => hes
  | .new _ type args => by
    rw [expr]
    refine reads_bind (reads_exprs args) fun es => ?_
    exact (reads_newObject type).imp fun _ _ h => h
  | .member _ target name => by
    rw [expr]
    refine reads_bind (reads_receiver (reads_expr target)) fun r => ?_
    cases r with
    | type t => exact (reads_staticRead t name).imp fun _ _ h _ => h
    | value target => exact reads_pure fun _ htarget => htarget
    | unresolved => exact reads_pure fun _ => False.elim
  | .call span (.member memberSpan target name) args =>
    reads_memberCall span memberSpan name (reads_expr target) (reads_exprs args)
  | .call span (.name nameSpan name) args => by
    rw [expr]
    refine reads_bind reads_read fun c' => ?_
    refine reads_bind (reads_recordInvocation _ _ args span) fun _ => ?_
    refine reads_bind (reads_exprs args) fun es => ?_
    exact (reads_ownCall name nameSpan).imp fun _ _ h hes _ _ => h hes
  | .call _ (.lit _ _) args | .call _ (.self _) args | .call _ (.list _ _) args
  | .call _ (.new _ _ _) args | .call _ (.call _ _ _) args | .call _ (.index _ _ _) args
  | .call _ (.unary _ _ _) args | .call _ (.binary _ _ _ _) args | .call _ (.await _ _) args => by
    -- Only methods are called.
    rw [expr]
    · refine reads_bind (reads_expr _) fun _ => reads_bind (reads_exprs args) fun _ => ?_
      exact reads_error_pure (reads_error rfl _ _)
    all_goals nofun
  | .index _ target i => by
    rw [expr]
    refine reads_bind (reads_expr target) fun t => reads_bind (reads_expr i) fun n => ?_
    exact reads_pure fun _ hi ht r hr => ⟨ht r hr, hi r hr⟩
  | .unary _ op operand => by
    rw [expr]
    exact reads_bind (reads_expr operand) fun e => reads_pure fun _ he => he
  | .binary _ op lhs rhs => by
    rw [expr]
    refine reads_bind (reads_expr lhs) fun a => reads_bind (reads_expr rhs) fun b => ?_
    exact reads_pure fun _ hb ha r hr => ⟨ha r hr, hb r hr⟩
  | .await _ operand => by
    rw [expr]
    exact reads_bind (reads_expr operand) fun e => reads_pure fun _ he => he

theorem reads_exprs : ∀ es : List Expr, Reads c (exprs es) (FitsAll c)
  | [] => by
    rw [exprs]
    exact reads_pure fun _ _ _ => trivial
  | e :: es => by
    rw [exprs]
    refine reads_bind (reads_expr e) fun e' => reads_bind (reads_exprs es) fun es' => ?_
    exact reads_pure fun _ hes he r hr => ⟨he r hr, hes r hr⟩

end

theorem reads_expr? (e : Option Expr) :
    Reads c (expr? e) fun σ e' => ∀ r : Region, r.Covers c σ → ∀ x ∈ e', x.WellScoped r := by
  cases e with
  | none => exact reads_pure fun _ _ _ _ h => nomatch h
  | some e =>
    refine reads_bind (reads_expr e) fun e' => reads_pure fun _ he r hr => ?_
    rintro _ ⟨⟩
    exact he r hr

theorem reads_place (target : Expr) :
    Reads c (place target) fun σ p =>
      ∃ q, p = some q ∧ ∀ r : Region, r.Covers c σ → q.WellScoped r := by
  unfold place
  split
  · next span name =>
    refine reads_bind (reads_resolve name span) fun r => ?_
    rcases r with _ | r
    · exact reads_pure fun _ ⟨_, h, _⟩ => nomatch h
    · cases r with
      -- A slot is in scope here, and a field of the receiver needs a receiver.
      | slot slot =>
        refine reads_pure fun σ ⟨_, h, hfits⟩ => ⟨_, rfl, fun r hr => ?_⟩
        cases h
        exact hr.slots hfits
      | staticField owner name => exact reads_pure fun _ _ => ⟨_, rfl, fun _ _ => trivial⟩
      | instanceField name =>
        refine reads_pure fun σ ⟨_, h, hfits⟩ => ⟨_, rfl, fun r hr => ?_⟩
        cases h
        exact hr.hasSelf hfits
      | type t => exact reads_error_pure (reads_error rfl _ _)
  · next span inner name =>
    refine reads_bind (reads_receiver (reads_expr inner)) fun r => ?_
    cases r with
    | type t =>
      refine reads_bind reads_read fun c' => ?_
      split
      · split
        · exact reads_pure fun _ _ _ => ⟨_, rfl, fun _ _ => trivial⟩
        · exact reads_error_pure (reads_error rfl _ _)
      · exact reads_error_pure (reads_error rfl _ _)
      · exact reads_error_pure (reads_error rfl _ _)
    | value inner => exact reads_pure fun _ hinner => ⟨_, rfl, hinner⟩
    | unresolved => exact reads_pure fun _ => False.elim
  · next span target i =>
    refine reads_bind (reads_expr target) fun t => reads_bind (reads_expr i) fun i => ?_
    exact reads_pure fun _ hi ht => ⟨_, rfl, fun r hr => ⟨ht r hr, hi r hr⟩⟩
  · exact reads_error_pure (reads_error rfl _ _)

/-! ## Statements -/

theorem reads_enter (r : Reach) (span : Span) : Reads c (r.enter span) fun _ _ => True := by
  unfold Reach.enter
  split
  · exact reads_bind (reads_report _ _ _) fun _ => reads_pure fun _ _ => trivial
  · exact reads_pure fun _ => trivial

theorem leads_inLoop {body : Lowering α} {P : Shape → α → Shape → Prop} (h : Leads c body P) :
    Leads c (inLoop body) fun σ a σ' => ∃ τ, P σ.enterLoop a τ ∧ σ' = τ.leaveLoop := by
  have hmodify (f : LoweringState → LoweringState) (g : Shape → Shape)
      (hf : ∀ s, (f s).Clean → s.Clean) (hg : ∀ s, (f s).shape = g s.shape) :
      Leads c (modify f) fun σ _ σ' => σ' = g σ := leads_modify hf hg
  refine leads_bind (hmodify _ Shape.enterLoop (fun _ h => h) fun _ => rfl) fun _ => ?_
  refine leads_bind h fun a => ?_
  refine leads_bind (hmodify _ Shape.leaveLoop (fun _ h => h) fun _ => rfl) fun _ => ?_
  refine leads_pure fun υ τ hleave σ₁ hbody σ hσ => ?_
  subst hσ
  exact ⟨τ, hbody, hleave⟩

theorem reads_checkLoop (span : Span) (word : String) :
    Reads c (checkLoop span word) fun σ _ => σ.loopDepth ≠ 0 := by
  refine reads_bind reads_get fun s => ?_
  split
  · exact (reads_error rfl _ _).imp fun _ _ h _ => h.elim
  · next hdepth =>
    refine reads_pure fun σ hs => ?_
    subst hs
    exact hdepth

/-- A statement adds the slots that it introduces and fits where it stands; what is behind it is
covered by the region behind it. -/
structure Placed (c : LoweringContext) (σ : Shape) (s : Image.Stmt) (σ' : Shape) : Prop where
  grows : σ.Grows σ' s.introduced
  fits : ∀ r : Region, r.Covers c σ → s.WellScoped r
  covers : ∀ r : Region, r.Covers c σ → (s.after r).Covers c σ'

/-- The same of the statements of a block. -/
structure PlacedAll (c : LoweringContext) (σ : Shape) (ss : List Image.Stmt) (σ' : Shape) :
    Prop where
  grows : σ.Grows σ' (Image.Stmt.introducedAll ss)
  fits : ∀ r : Region, r.Covers c σ → Image.Stmt.WellScopedAll r ss

/-- A block whose scope is closed again. -/
structure Closed (c : LoweringContext) (σ : Shape) (ss : List Image.Stmt) (σ' : Shape) : Prop
    extends PlacedAll c σ ss σ' where
  scopes : σ'.scopes = σ.scopes

theorem Placed.of_scopes {σ σ' : Shape} {s : Image.Stmt} (hgrows : σ.Grows σ' s.introduced)
    (hscopes : σ'.scopes = σ.scopes) (hafter : ∀ r, s.after r = r)
    (hfits : ∀ r : Region, r.Covers c σ → s.WellScoped r) : Placed c σ s σ' :=
  ⟨hgrows, hfits, fun r hr => (hafter r).symm ▸ hr.of_scopes hscopes hgrows.loopDepth⟩

theorem Closed.nil (σ : Shape) : Closed c σ [] σ :=
  ⟨⟨.refl σ, fun _ _ => trivial⟩, rfl⟩

theorem Closed.singleton {σ σ' : Shape} {s : Image.Stmt} (h : Placed c σ s σ')
    (hscopes : σ'.scopes = σ.scopes) : Closed c σ [s] σ' := by
  refine ⟨⟨?_, fun r hr => ⟨h.fits r hr, trivial⟩⟩, hscopes⟩
  rw [Image.Stmt.introducedAll, Image.Stmt.introducedAll, List.append_nil]
  exact h.grows

/-- A local that may be missing comes into scope. -/
def Bound (c : LoweringContext) (σ : Shape) (slot : Option Nat) (σ' : Shape) : Prop :=
  σ.Grows σ' slot.toList ∧ ∀ r : Region, r.Covers c σ → (slot.elim r r.extend).Covers c σ'

theorem leads_binding (binding : Option Ident) :
    Leads c (match binding with
      | some name => some <$> declare name false
      | none => pure none) (Bound c) := by
  cases binding with
  | none => exact leads_pure fun σ => ⟨.refl σ, fun _ hr => hr⟩
  | some name =>
    refine leads_bind (leads_declare name false) fun slot => leads_pure ?_
    rintro _ σ ⟨rfl, rfl⟩
    exact ⟨.declare σ, fun _ hr => hr.declare⟩

/-- A handler stands where its local is in scope. -/
def Handled (c : LoweringContext) (line : Nat) (b : List Image.Stmt) (σ : Shape) (s : Image.Stmt)
    (σ' : Shape) : Prop :=
  ∃ slot h, s = .tryCatch line b slot h ∧
    σ.Grows σ' (slot.toList ++ Image.Stmt.introducedAll h) ∧
    ∀ r : Region, r.Covers c σ → Image.Stmt.WellScopedAll (slot.elim r r.extend) h

/-- A statement without nested ones that declares nothing. -/
theorem leads_plain {x : Lowering Image.Stmt}
    (h : Reads c x fun σ s => s.introduced = [] ∧ (∀ r, s.after r = r) ∧
      ∀ r : Region, r.Covers c σ → s.WellScoped r) : Leads c x (Placed c) := by
  refine Leads.imp h ?_
  rintro σ s σ' ⟨rfl, hnone, hafter, hfits⟩
  exact .of_scopes (hnone ▸ .refl _) rfl hafter hfits

/-- The local of a loop is declared in a scope around its body. -/
theorem leads_loopBody {body : Block} (h : Leads c (block body) (Closed c)) (line : Nat)
    (item : Ident) (e : Image.Expr) :
    Leads c (do
      let slot ← declare item false
      let body ← inLoop (block body)
      return Image.Stmt.forLoop line slot e body) fun σ s σ' =>
        ∃ b, s = .forLoop line σ.size e b ∧ σ.Grows σ' s.introduced ∧
          ∀ r : Region, r.Covers c σ → Image.Stmt.WellScopedAll (r.extend σ.size).loop b := by
  refine leads_bind (leads_declare item false) fun slot => ?_
  refine leads_bind (leads_inLoop h) fun b => leads_pure ?_
  rintro _ _ ⟨τ, hb, rfl⟩ σ ⟨rfl, rfl⟩
  refine ⟨b, rfl, (Shape.Grows.declare σ).trans hb.grows.leaveLoop, fun r hr => ?_⟩
  exact hb.fits _ hr.declare.enterLoop

/-- Behind the local of a handler comes its block. -/
theorem leads_handler {handler : Block} (h : Leads c (block handler) (Closed c)) (line : Nat)
    (b : List Image.Stmt) (slot : Option Nat) :
    Leads c (do
      let handler ← block handler
      return Image.Stmt.tryCatch line b slot handler) fun τ s σ' =>
        ∀ σ, Bound c σ slot τ → Handled c line b σ s σ' := by
  refine leads_bind h fun h => leads_pure ?_
  rintro _ τ hh σ ⟨hslot, hcovers⟩
  exact ⟨slot, h, rfl, hslot.trans hh.grows, fun r hr => hh.fits _ (hcovers r hr)⟩

/-- Whatever stands behind `else`, it starts with the scopes of the statement. -/
theorem Placed.cond {line : Nat} {e : Image.Expr} {a b : List Image.Stmt} {σ τ σ' : Shape}
    (he : Fits c σ e) (ha : Closed c σ a τ) (hb : Closed c τ b σ') :
    Placed c σ (.cond line e a b) σ' ∧ σ'.scopes = σ.scopes := by
  have hscopes := hb.scopes.trans ha.scopes
  refine ⟨.of_scopes (ha.grows.trans hb.grows) hscopes (fun _ => rfl) fun r hr => ?_, hscopes⟩
  exact ⟨he r hr, ha.fits r hr, hb.fits r (hr.of_scopes ha.scopes ha.grows.loopDepth)⟩

theorem leads_assign (span : Span) (target value : Expr) :
    Leads c (stmt (.assign span target value)) (Placed c) := by
  rw [stmt]
  refine leads_plain ?_
  refine reads_bind (reads_lineOf span) fun line => ?_
  refine reads_bind (reads_place target) fun p => ?_
  refine reads_bind (reads_expr value) fun e => ?_
  cases p with
  | none => exact reads_pure fun _ _ ⟨_, h, _⟩ => nomatch h
  | some p =>
    refine reads_pure fun _ he ⟨_, h, hp⟩ _ => ⟨rfl, fun _ => rfl, fun r hr => ?_⟩
    cases h
    exact ⟨hp r hr, he r hr⟩

mutual

theorem leads_stmt : ∀ s : Stmt, Leads c (stmt s) (Placed c)
  | .declare span name init => by
    rw [stmt]
    refine leads_bind_reads (reads_lineOf span) fun line => ?_
    refine leads_bind_reads (reads_expr? init) fun e => ?_
    refine leads_bind (leads_declare name true) fun slot => ?_
    refine leads_pure ?_
    rintro _ σ ⟨rfl, rfl⟩ he -
    exact ⟨.declare σ, he, fun r hr => hr.declare⟩
  | .assign span target value => leads_assign span target value
  | .expr span e => by
    rw [stmt]
    refine leads_plain (reads_bind (reads_lineOf span) fun line => ?_)
    refine reads_bind (reads_expr e) fun _ => ?_
    exact reads_pure fun _ he _ => ⟨rfl, fun _ => rfl, he⟩
  | .cond branch => by
    rw [stmt]
    exact (leads_conditional branch).imp fun _ _ _ h => h.1
  | .whileLoop span cond body => by
    rw [stmt]
    refine leads_bind_reads (reads_lineOf span) fun line => ?_
    refine leads_bind_reads (reads_expr cond) fun e => ?_
    refine leads_bind (leads_inLoop (leads_block body)) fun b => leads_pure ?_
    rintro _ σ ⟨τ, hb, rfl⟩ he -
    refine .of_scopes hb.grows.leaveLoop hb.scopes (fun _ => rfl) fun r hr => ?_
    exact ⟨he r hr, hb.fits _ hr.enterLoop⟩
  | .forLoop span item iterable body => by
    rw [stmt]
    refine leads_bind_reads (reads_lineOf span) fun line => ?_
    refine leads_bind_reads (reads_expr iterable) fun e => ?_
    refine (leads_inScope (leads_loopBody (leads_block body) line item e)).imp ?_
    rintro σ _ _ ⟨τ, ⟨b, rfl, hgrows, hb⟩, rfl⟩ he -
    obtain ⟨hgrows, hscopes⟩ := hgrows.pop
    exact .of_scopes hgrows hscopes (fun _ => rfl) fun r hr => ⟨he r hr, hb r hr.push⟩
  | .ret span value => by
    rw [stmt]
    refine leads_plain (reads_bind (reads_lineOf span) fun line => ?_)
    refine reads_bind (reads_expr? value) fun _ => ?_
    exact reads_pure fun _ he _ => ⟨rfl, fun _ => rfl, he⟩
  | .throw span value => by
    rw [stmt]
    refine leads_plain (reads_bind (reads_lineOf span) fun line => ?_)
    refine reads_bind (reads_expr value) fun _ => ?_
    exact reads_pure fun _ he _ => ⟨rfl, fun _ => rfl, he⟩
  | .tryCatch span body binding handler => by
    rw [stmt]
    refine leads_bind_reads (reads_lineOf span) fun line => ?_
    refine leads_bind (leads_block body) fun b => ?_
    -- The scope of the body is closed before the local of the handler comes into scope.
    have hhandler := leads_handler (leads_block handler) line b
    refine (leads_inScope (P := Handled c line b) ?_).imp ?_
    · cases binding with
      | none => exact leads_bind (leads_binding none) hhandler
      | some name => exact leads_bind (leads_binding (some name)) hhandler
    rintro τ _ _ ⟨υ, ⟨slot, h, rfl, hgrows, hh⟩, rfl⟩ σ hb -
    obtain ⟨hgrows, hscopes⟩ := hgrows.pop
    have hall := hb.grows.trans hgrows
    rw [← List.append_assoc] at hall
    refine .of_scopes hall (hscopes.trans hb.scopes) (fun _ => rfl) fun r hr => ⟨hb.fits r hr, ?_⟩
    exact hh r (hr.of_scopes hb.scopes hb.grows.loopDepth).push
  | .breakLoop span => by
    rw [stmt]
    refine leads_plain (reads_bind (reads_lineOf span) fun line => ?_)
    refine reads_bind (reads_checkLoop span _) fun _ => ?_
    exact reads_pure fun _ hdepth _ => ⟨rfl, fun _ => rfl, fun r hr => hr.inLoop hdepth⟩
  | .continueLoop span => by
    rw [stmt]
    refine leads_plain (reads_bind (reads_lineOf span) fun line => ?_)
    refine reads_bind (reads_checkLoop span _) fun _ => ?_
    exact reads_pure fun _ hdepth _ => ⟨rfl, fun _ => rfl, fun r hr => hr.inLoop hdepth⟩
  | .nested b => by
    rw [stmt]
    refine leads_bind_reads (reads_lineOf _) fun line => ?_
    refine leads_bind (leads_block b) fun ss => leads_pure ?_
    rintro _ σ hb -
    exact .of_scopes hb.grows hb.scopes (fun _ => rfl) hb.fits

theorem leads_block : ∀ b : Block, Leads c (block b) (Closed c)
  | .mk _ ss => by
    rw [block]
    refine (leads_inScope (leads_stmts .reachable ss)).imp ?_
    rintro σ ss _ ⟨τ, hss, rfl⟩
    obtain ⟨hgrows, hscopes⟩ := hss.grows.pop
    exact ⟨⟨hgrows, fun r hr => hss.fits r hr.push⟩, hscopes⟩

theorem leads_conditional : ∀ b : Conditional,
    Leads c (conditional b) fun σ s σ' => Placed c σ s σ' ∧ σ'.scopes = σ.scopes
  | .mk span cond thenBlock otherwise => by
    rw [conditional]
    refine leads_bind_reads (reads_lineOf span) fun line => ?_
    refine leads_bind_reads (reads_expr cond) fun e => ?_
    refine leads_bind (leads_block thenBlock) fun a => ?_
    match otherwise with
    | .none => exact leads_pure fun τ σ ha he _ => Placed.cond he ha (.nil τ)
    | .block other =>
      refine leads_bind (leads_block other) fun b => leads_pure ?_
      exact fun _ _ hb _ ha he _ => Placed.cond he ha hb
    | .chain next =>
      refine leads_bind (leads_conditional next) fun s => leads_pure ?_
      exact fun _ _ hs _ ha he _ => Placed.cond he ha (.singleton hs.1 hs.2)

theorem leads_stmts : ∀ (r : Reach) (ss : List Stmt), Leads c (stmts r ss) (PlacedAll c)
  | _, [] => by
    rw [stmts]
    exact leads_pure fun σ => ⟨.refl σ, fun _ _ => trivial⟩
  | r, s :: ss => by
    rw [stmts]
    refine leads_bind_reads (reads_enter r s.span) fun r' => ?_
    refine leads_bind (leads_stmt s) fun s' => leads_bind (leads_stmts _ ss) fun ss' => ?_
    refine leads_pure fun _ τ hss σ hs _ => ⟨hs.grows.trans hss.grows, fun r hr => ?_⟩
    exact ⟨hs.fits r hr, hss.fits _ (hs.covers r hr)⟩

end

end Lowering

end GenLang
